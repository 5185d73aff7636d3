import ReplicationQueue.Disk.Lookup

/-! Paths that end in a plain name, one that a directory can hold: what joining such a name to a
path does to its names, its parts, its parent and its length. -/

namespace ReplicationQueue

/-- A name that a directory can hold. -/
structure IsPlain (name : String) : Prop where
  ne_nil : name.toList ≠ []
  noSlash : '/' ∉ name.toList
  noNull : '\x00' ∉ name.toList
  ne_dot : name ≠ "."
  ne_up : name ≠ ".."
  short : name.utf8ByteSize ≤ maxNameBytes

namespace Path

/-- The names between slashes. -/
def names (p : Path) : List String :=
  ((segments p.text.toList).filter (· ≠ [])).map String.ofList

/-- The steps of a path are its names, with a dot after them if the path asks for a directory. -/
theorem stepsOf_text (p : Path) :
    stepsOf p.text = p.names ∨ stepsOf p.text = p.names ++ ["."] := by
  unfold stepsOf names
  simp only [List.map_append]
  split
  · exact .inr rfl
  · exact .inl (List.append_nil _)

/-! ### Segments -/

theorem segments_append (a b : List Char) :
    segments (a ++ '/' :: b) = segments a ++ segments b := by
  induction a with
  | nil => simp [segments]
  | cons c a ih =>
    simp only [List.cons_append, segments, ih]
    split
    · simp
    · obtain ⟨s, rest, hs⟩ := List.exists_cons_of_ne_nil (segments_ne_nil a)
      simp [hs]

theorem segments_eq_singleton {s : List Char} (h : '/' ∉ s) : segments s = [s] := by
  induction s with
  | nil => rfl
  | cons c s ih =>
    simp only [List.mem_cons, not_or] at h
    simp [segments, Ne.symm h.1, ih h.2]

/-! ### The text of a joined path -/

/-- The characters of a path that a name is joined to, up to the name. -/
def lead (chars : List Char) : List Char :=
  if chars = [] ∨ chars.getLast? = some '/' then chars else chars ++ ['/']

theorem isAbsoluteText_of_noSlash {s : List Char} (h : '/' ∉ s) : isAbsoluteText s = false := by
  cases s with
  | nil => rfl
  | cons c rest =>
    have hc : c ≠ '/' := fun hc => h (by simp [hc])
    unfold isAbsoluteText
    split <;> simp_all

theorem toList_join_of_relative (p : Path) {name : String}
    (h : isAbsoluteText name.toList = false) :
    (p.join name).text.toList = lead p.text.toList ++ name.toList := by
  unfold join lead
  rw [h]
  split
  · contradiction
  · split <;> simp

theorem toList_join (p : Path) {name : String} (h : '/' ∉ name.toList) :
    (p.join name).text.toList = lead p.text.toList ++ name.toList :=
  p.toList_join_of_relative (isAbsoluteText_of_noSlash h)

theorem filter_segments_lead (chars s : List Char) :
    (segments (lead chars ++ s)).filter (· ≠ []) =
      (segments chars).filter (· ≠ []) ++ (segments s).filter (· ≠ []) := by
  unfold lead
  split
  · rename_i hc
    rcases hc with rfl | hc
    · simp [segments]
    · obtain ⟨a, rfl⟩ := List.getLast?_eq_some_iff.1 hc
      rw [List.append_assoc, List.singleton_append, segments_append, segments_append]
      simp [segments]
  · rw [List.append_assoc, List.singleton_append, segments_append, List.filter_append]

theorem names_join_of_relative (p : Path) {q : Path} (h : q.isAbsolute = false) :
    (p.join q.text).names = p.names ++ q.names := by
  unfold names
  rw [p.toList_join_of_relative h, filter_segments_lead, List.map_append]

theorem names_join (p : Path) {name : String} (h : IsPlain name) :
    (p.join name).names = p.names ++ [name] := by
  unfold names
  rw [toList_join p h.noSlash, filter_segments_lead, segments_eq_singleton h.noSlash]
  simp [h.ne_nil]

theorem getLast?_join (p : Path) {name : String} (h : IsPlain name) :
    (p.join name).text.toList.getLast? ≠ some '/' := by
  rw [toList_join p h.noSlash, List.getLast?_append, List.getLast?_eq_some_getLast h.ne_nil,
    Option.some_or]
  intro hl
  have hmem := List.getLast_mem h.ne_nil
  rw [Option.some.inj hl] at hmem
  exact h.noSlash hmem

theorem text_join_ne_empty (p : Path) {name : String} (h : IsPlain name) :
    (p.join name).text ≠ "" := by
  intro he
  have := toList_join p h.noSlash
  rw [he] at this
  simp only [String.toList_empty, List.nil_eq, List.append_eq_nil_iff] at this
  exact h.ne_nil this.2

theorem toList_join_join (p : Path) {a b : String} (ha : IsPlain a) (hb : IsPlain b) :
    ((p.join a).join b).text.toList = (p.join a).text.toList ++ '/' :: b.toList := by
  have hne : (p.join a).text.toList ≠ [] := by simpa using text_join_ne_empty p ha
  have hlead : lead (p.join a).text.toList = (p.join a).text.toList ++ ['/'] := by
    unfold lead
    rw [if_neg (by simp [hne, getLast?_join p ha])]
  rw [toList_join _ hb.noSlash, hlead, List.append_assoc]
  rfl

theorem isAbsolute_join_of_relative {p : Path} (hp : p.text ≠ "") {name : String}
    (h : isAbsoluteText name.toList = false) : (p.join name).isAbsolute = p.isAbsolute := by
  have hne : p.text.toList ≠ [] := by simpa using hp
  obtain ⟨c, rest, hc⟩ := List.exists_cons_of_ne_nil hne
  have : ∃ more, lead p.text.toList ++ name.toList = c :: more := by
    unfold lead
    split <;> simp [hc]
  obtain ⟨more, hm⟩ := this
  unfold isAbsolute
  rw [toList_join_of_relative p h, hm, hc]
  unfold isAbsoluteText
  split <;> split <;> simp_all

theorem isAbsolute_join {p : Path} (hp : p.text ≠ "") {name : String} (h : IsPlain name) :
    (p.join name).isAbsolute = p.isAbsolute :=
  isAbsolute_join_of_relative hp (isAbsoluteText_of_noSlash h.noSlash)

theorem null_mem_join {p : Path} {name : String} (h : IsPlain name)
    (hp : '\x00' ∉ p.text.toList) : '\x00' ∉ (p.join name).text.toList := by
  rw [toList_join p h.noSlash]
  unfold lead
  split <;> simp [hp, h.noNull]

theorem stepsOf_join (p : Path) {name : String} (h : IsPlain name) :
    stepsOf (p.join name).text = p.names ++ [name] := by
  unfold stepsOf
  simp only [getLast?_join p h, and_false, ↓reduceIte, List.append_nil]
  exact names_join p h

/-! ### The front of a path and what follows it -/

/-- What the parts of a path are cut from, with the text in front of it put back. -/
def leadOf : Option Part → List Char
  | some .root => ['/']
  | some .here => ['.']
  | _ => []

theorem leadOf_front (chars : List Char) : leadOf (front chars).1 ++ (front chars).2 = chars := by
  unfold front
  split <;> simp [leadOf]

/-- Joining a name to a path leaves the front as it is. -/
theorem front_append_slash {chars : List Char} (s : List Char) (hne : chars ≠ [])
    (hdot : chars ≠ ['.']) :
    front (chars ++ '/' :: s) = ((front chars).1, (front chars).2 ++ '/' :: s) := by
  match chars with
  | [] => contradiction
  | [c] =>
    by_cases hs : c = '/'
    · simp [front, hs]
    · have : c ≠ '.' := fun hc => hdot (by rw [hc])
      unfold front
      split <;> simp_all
  | c :: d :: rest =>
    unfold front
    split <;> split <;> simp_all

theorem part?_plain {name : String} (h : IsPlain name) :
    part? name.toList = some (.name name) := by
  have hdot : name.toList ≠ ['.'] := fun hd => h.ne_dot (String.toList_inj.1 hd)
  have hup : name.toList ≠ ['.', '.'] := fun hd => h.ne_up (String.toList_inj.1 hd)
  simp only [part?, h.ne_nil, hdot, or_self, ↓reduceIte, hup, String.ofList_toList]

theorem front_plain {name : String} (h : IsPlain name) :
    front name.toList = (none, name.toList) := by
  have hdot : name.toList ≠ ['.'] := fun hd => h.ne_dot (String.toList_inj.1 hd)
  have hslash := h.noSlash
  unfold front
  split
  · rename_i heq
    simp [heq] at hslash
  · contradiction
  · rename_i heq
    simp [heq] at hslash
  · rfl

theorem segments_front_join (p : Path) {name : String} (h : IsPlain name) :
    ∃ before, segments (front (p.join name).text.toList).2 = before ++ [name.toList] := by
  rw [toList_join p h.noSlash]
  have single := segments_eq_singleton h.noSlash
  have cut : ∀ x : List Char,
      ∃ before, segments (front (x ++ '/' :: name.toList)).2 = before ++ [name.toList] := by
    intro x
    by_cases hne : x = []
    · exact ⟨[], by simp [hne, front, single]⟩
    · by_cases hdot : x = ['.']
      · exact ⟨[[]], by simp [hdot, front, segments, single]⟩
      · rw [front_append_slash _ hne hdot]
        exact ⟨segments (front x).2, by rw [segments_append, single]⟩
  unfold lead
  split
  · rename_i hc
    rcases hc with hc | hc
    · exact ⟨[], by rw [hc, List.nil_append, front_plain h, single]; rfl⟩
    · obtain ⟨x, hx⟩ := List.getLast?_eq_some_iff.1 hc
      rw [hx, List.append_assoc]
      exact cut x
  · rw [List.append_assoc]
    exact cut _

theorem fileName?_join (p : Path) {name : String} (h : IsPlain name) :
    (p.join name).fileName? = some name := by
  obtain ⟨before, hb⟩ := segments_front_join p h
  simp [fileName?, parts, hb, part?_plain h]

theorem trimSegments_plain (before : List (List Char)) {name : String} (h : IsPlain name) :
    trimSegments (before ++ [name.toList]) = before ++ [name.toList] := by
  simp [trimSegments, part?_plain h]

theorem parent?_join_join (p : Path) {a b : String} (ha : IsPlain a) (hb : IsPlain b) :
    ((p.join a).join b).parent? = some (p.join a) := by
  have hne : (p.join a).text.toList ≠ [] := by simpa using text_join_ne_empty p ha
  have hdot : (p.join a).text.toList ≠ ['.'] := by
    intro hd
    have := names_join p ha
    rw [names, hd] at this
    have last := congrArg List.getLast? this
    simp only [segments, List.getLast?_append, List.getLast?_singleton, Option.some_or] at last
    exact ha.ne_dot (by simpa using last.symm)
  obtain ⟨before, hbefore⟩ := segments_front_join p ha
  have kept : trimSegments (segments (front (p.join a).text.toList).2) =
      segments (front (p.join a).text.toList).2 := by
    rw [hbefore, trimSegments_plain _ ha]
  have back := leadOf_front (p.join a).text.toList
  unfold parent?
  rw [toList_join_join p ha hb, front_append_slash _ hne hdot]
  simp only [segments_append, segments_eq_singleton hb.noSlash, trimSegments_plain _ hb]
  split
  · rename_i heq _
    simp at heq
  · rename_i heq _
    simp at heq
  · rw [List.dropLast_concat, kept, joinSegments_segments]
    show some (Path.mk (String.ofList (leadOf _ ++ _))) = _
    rw [back, String.ofList_toList]

/-! ### Parts -/

theorem parts_eq (p : Path) : p.parts = (front p.text.toList).1.toList ++
    (segments (front p.text.toList).2).filterMap part? := rfl

/-- What follows a slash adds its own parts. -/
theorem parts_of_slash {p q : Path} {x s : List Char} (hp : p.text.toList = x ++ ['/'])
    (hq : q.text.toList = x ++ '/' :: s) : q.parts = p.parts ++ (segments s).filterMap part? := by
  rw [parts_eq, parts_eq, hp, hq]
  by_cases hnil : x = []
  · subst hnil
    rfl
  by_cases hdot : x = ['.']
  · subst hdot
    rfl
  rw [front_append_slash s hnil hdot, front_append_slash [] hnil hdot]
  simp [segments_append, segments, part?]

/-- A slash at the end adds none. -/
theorem parts_slash {p q : Path} (hp : p.text.toList ≠ [])
    (hq : q.text.toList = p.text.toList ++ ['/']) : q.parts = p.parts := by
  rw [parts_eq, parts_eq, hq]
  by_cases hdot : p.text.toList = ['.']
  · rw [hdot]
    rfl
  rw [front_append_slash [] hp hdot]
  simp [segments_append, segments, part?]

theorem parts_join (p : Path) {name : String} (h : IsPlain name) :
    (p.join name).parts = p.parts ++ [.name name] := by
  have hname : (segments name.toList).filterMap part? = [.name name] := by
    rw [segments_eq_singleton h.noSlash, List.filterMap_cons_some (part?_plain h)]
    rfl
  have htext := toList_join p h.noSlash
  unfold lead at htext
  split at htext
  · rename_i hend
    rcases hend with hnil | hslash
    · rw [hnil, List.nil_append] at htext
      rw [parts_eq, parts_eq, htext, hnil, front_plain h, hname]
      rfl
    · obtain ⟨x, hx⟩ := List.getLast?_eq_some_iff.1 hslash
      have hq : (p.join name).text.toList = x ++ '/' :: name.toList := by simp [htext, hx]
      rw [parts_of_slash hx hq, hname]
  · rename_i hend
    rw [not_or] at hend
    let slashed : Path := ⟨String.ofList (p.text.toList ++ ['/'])⟩
    have hslashed : slashed.text.toList = p.text.toList ++ ['/'] := String.toList_ofList
    have hq : (p.join name).text.toList = p.text.toList ++ '/' :: name.toList := by simp [htext]
    rw [parts_of_slash hslashed hq, hname, parts_slash hend.1 hslashed]

/-! ### The path of a location -/

theorem filter_segments_intercalate {l : Location} (h : ∀ n ∈ l, IsPlain n) :
    (segments ("/".intercalate l).toList).filter (· ≠ []) = l.map String.toList := by
  induction l with
  | nil => rfl
  | cons n rest ih =>
    have hn := h n (by simp)
    have hrest := ih fun m hm => h m (List.mem_cons_of_mem n hm)
    cases rest with
    | nil => simp [String.intercalate_singleton, segments_eq_singleton hn.noSlash, hn.ne_nil]
    | cons m rest =>
      rw [String.intercalate_cons_cons, String.toList_append, String.toList_append,
        List.append_assoc]
      show (segments (n.toList ++ '/' :: ("/".intercalate (m :: rest)).toList)).filter _ = _
      rw [segments_append, List.filter_append, hrest, segments_eq_singleton hn.noSlash]
      simp [hn.ne_nil]

theorem toList_path (l : Location) : l.path.text.toList = '/' :: ("/".intercalate l).toList := by
  rw [Location.path, String.toList_append]
  rfl

theorem names_path {l : Location} (h : ∀ n ∈ l, IsPlain n) : l.path.names = l := by
  unfold names
  rw [toList_path, ← List.nil_append ('/' :: _), segments_append, List.filter_append,
    filter_segments_intercalate h]
  simp [segments, Function.comp_def]

theorem isAbsolute_path (l : Location) : l.path.isAbsolute = true := by
  rw [isAbsolute, toList_path]
  rfl

theorem text_path_ne_empty (l : Location) : l.path.text ≠ "" := by
  intro h
  have := toList_path l
  simp [h] at this

theorem null_mem_path {l : Location} (h : ∀ n ∈ l, IsPlain n) : '\x00' ∉ l.path.text.toList := by
  have hrest : ∀ l : Location, (∀ n ∈ l, IsPlain n) → '\x00' ∉ ("/".intercalate l).toList := by
    intro l hl
    induction l with
    | nil => simp [String.intercalate_nil]
    | cons n rest ih =>
      have hn := (hl n (by simp)).noNull
      have htail := ih fun m hm => hl m (List.mem_cons_of_mem n hm)
      cases rest with
      | nil => rwa [String.intercalate_singleton]
      | cons m rest =>
        rw [String.intercalate_cons_cons]
        simp only [String.toList_append, List.mem_append, not_or]
        exact ⟨⟨hn, by decide⟩, htail⟩
  rw [toList_path, List.mem_cons, not_or]
  exact ⟨by decide, hrest l h⟩

/-! ### Lengths -/

/-- A slash goes between, unless one is there. -/
theorem text_join {p : Path} (hp : p.text ≠ "") (hlast : p.text.toList.getLast? ≠ some '/')
    {b : String} (hb : IsPlain b) : (p.join b).text = p.text ++ "/" ++ b := by
  have hne : p.text.toList ≠ [] := by simpa using hp
  apply String.toList_inj.1
  rw [toList_join p hb.noSlash, lead, if_neg (by simp [hne, hlast])]
  simp

theorem utf8ByteSize_join {p : Path} (hp : p.text ≠ "") (hlast : p.text.toList.getLast? ≠ some '/')
    {b : String} (hb : IsPlain b) :
    (p.join b).text.utf8ByteSize = p.text.utf8ByteSize + 1 + b.utf8ByteSize := by
  rw [text_join hp hlast hb, String.utf8ByteSize_append, String.utf8ByteSize_append]
  rfl

theorem utf8ByteSize_join_join (p : Path) {a b : String} (ha : IsPlain a) (hb : IsPlain b) :
    ((p.join a).join b).text.utf8ByteSize =
      (p.join a).text.utf8ByteSize + 1 + b.utf8ByteSize :=
  utf8ByteSize_join (text_join_ne_empty p ha) (getLast?_join p ha) hb

/-- A path is not longer than the same path below another. -/
theorem utf8ByteSize_le_join (p : Path) (name : String) :
    name.utf8ByteSize ≤ (p.join name).text.utf8ByteSize := by
  unfold join
  split
  · exact Nat.le_refl _
  · split
    · rw [String.utf8ByteSize_append]
      omega
    · rw [String.utf8ByteSize_append]
      omega

/-- A path is not longer than what goes on from it. -/
theorem utf8ByteSize_join_ge (p : Path) {name : String} (h : IsPlain name) :
    p.text.utf8ByteSize ≤ (p.join name).text.utf8ByteSize := by
  unfold join
  rw [isAbsoluteText_of_noSlash h.noSlash, if_neg (by simp)]
  split
  · rw [String.utf8ByteSize_append]
    omega
  · rw [String.utf8ByteSize_append, String.utf8ByteSize_append]
    omega

end Path

end ReplicationQueue
