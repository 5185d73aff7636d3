import ReplicationQueue.Proofs.Site

/-! What the calls that a queue makes are answered, and what the disk shows after them. -/

namespace ReplicationQueue

namespace Place

theorem not_prefix {a b : Place} (hne : a ≠ b) : ¬a.names <+: b.names := by
  intro h
  have hsame : a.names.length = b.names.length → False := fun hl =>
    hne (names_inj.1 (h.eq_of_length hl))
  -- Places in shards are one name longer, and no shard is named like a key.
  cases a with
  | running key =>
    cases b with
    | running _ => exact hsame rfl
    | flat _ => exact hsame rfl
    | sharded _ => simp [names, directory] at h
  | flat key =>
    cases b with
    | running _ => exact hsame rfl
    | flat _ => exact hsame rfl
    | sharded other =>
      simp only [names, directory, List.cons_append, List.nil_append, List.cons_prefix_cons,
        true_and] at h
      exact key.text_ne_shard other h.1
  | sharded key =>
    cases b with
    | running _ => exact absurd h.length_le (by simp [names, directory])
    | flat _ => exact absurd h.length_le (by simp [names, directory])
    | sharded _ => exact hsame rfl

theorem head?_names_ne (pl : Place) : pl.names.head? ≠ some "building" := by
  cases pl <;> simp [names, directory]

theorem not_prefix_building (pl : Place) (name : String) :
    ¬pl.names <+: ["building", name] ∧ ¬["building", name] <+: pl.names := by
  have hhead := pl.head?_names_ne
  obtain ⟨state, rest, hnames⟩ : ∃ state rest, pl.names = state :: rest := by
    cases pl <;> exact ⟨_, _, rfl⟩
  rw [hnames] at hhead ⊢
  have hne : state ≠ "building" := by simpa using hhead
  constructor
  · intro h
    exact hne (List.cons_prefix_cons.1 h).1
  · intro h
    exact hne (List.cons_prefix_cons.1 h).1.symm

end Place

namespace Queue

theorem get?_below (q : Queue) (pl : Place) (n : String) (rest : Location) :
    q.get? (pl.names ++ n :: rest) = none := by
  have hplace : Place.ofNames? (pl.names ++ n :: rest) = none := by
    rw [Option.eq_none_iff_forall_ne_some]
    intro other hother
    rw [Place.ofNames?_eq_some_iff] at hother
    have hdeep : pl.names <+: other.names := hother ▸ List.prefix_append _ _
    have hne : pl ≠ other := by
      rintro rfl
      simpa using congrArg List.length hother
    exact Place.not_prefix hne hdeep
  rw [get?, hplace]
  cases pl <;> simp [frame?, isDirectory, Place.names, Place.directory]

theorem get?_below_building (q : Queue) (name n : String) (rest : Location) :
    q.get? (["building", name] ++ n :: rest) = none := by
  have hplace : Place.ofNames? (["building", name] ++ n :: rest) = none := by
    rw [Option.eq_none_iff_forall_ne_some]
    intro other hother
    rw [Place.ofNames?_eq_some_iff] at hother
    exact other.head?_names_ne (by rw [hother]; rfl)
  rw [get?, hplace]
  simp [frame?, isDirectory]

end Queue

namespace Layout

/-- Where the longest path is short enough, all are. -/
theorem reaches_of_sharded {layout : Layout} {key : TaskKey}
    (h : layout.reaches (.sharded key) = true) (pl : Place) : layout.reaches pl = true := by
  simp only [reaches, Path.isTooLong, utf8ByteSize_pathOf_sharded, Bool.not_eq_true',
    decide_eq_false_iff_not] at h ⊢
  cases pl with
  | running other =>
    rw [utf8ByteSize_pathOf_running]
    omega
  | flat other =>
    rw [utf8ByteSize_pathOf_flat]
    omega
  | sharded other =>
    rw [utf8ByteSize_pathOf_sharded]
    omega

/-- No path of a running file is longer than one of a waiting file. -/
theorem reaches_running {layout : Layout} {pl : Place} (h : layout.reaches pl = true)
    (key : TaskKey) : layout.reaches (.running key) = true := by
  simp only [reaches, Path.isTooLong, Bool.not_eq_true', decide_eq_false_iff_not,
    utf8ByteSize_pathOf_running] at h ⊢
  cases pl with
  | running _ =>
    rw [utf8ByteSize_pathOf_running] at h
    exact h
  | flat _ =>
    rw [utf8ByteSize_pathOf_flat] at h
    exact h
  | sharded _ =>
    rw [utf8ByteSize_pathOf_sharded] at h
    omega

/-- The path of a place is longer than that of its directory. -/
theorem reaches_eq_false_of_directory {layout : Layout} {pl : Place}
    (h : (layout.directoryOf pl).isTooLong) : layout.reaches pl = false := by
  have hsize :
      (layout.directoryOf pl).text.utf8ByteSize ≤ (layout.pathOf pl).text.utf8ByteSize := by
    cases pl with
    | running key =>
      rw [utf8ByteSize_pathOf_running, directoryOf, utf8ByteSize_running]
      omega
    | flat key =>
      rw [utf8ByteSize_pathOf_flat, directoryOf, utf8ByteSize_waiting]
      omega
    | sharded key =>
      rw [utf8ByteSize_pathOf_sharded, directoryOf, utf8ByteSize_shard]
      omega
  unfold Path.isTooLong at h
  unfold reaches Path.isTooLong
  simp only [decide_eq_true_eq, Bool.not_eq_false'] at h ⊢
  omega

theorem isTooLong_pathOf (layout : Layout) (pl : Place) :
    ((layout.directoryOf pl).join pl.key.text).isTooLong = !layout.reaches pl := by
  rw [reaches, Bool.not_not, pathOf]

theorem pathOf_sharded (layout : Layout) (key : TaskKey) :
    layout.pathOf (.sharded key) =
      ((layout.refUpdates.join "waiting").join key.shard).join key.text := rfl

end Layout

namespace Site.Shows

variable {site : Site} {layout : Layout} {q : Queue} {s : System}

/-! ### Answers -/

theorem get?_names (h : site.Shows q s) (pl : Place) :
    s.disk.get? (site.root ++ pl.names) = (q.files pl).map (.file ·.record) := by
  rw [h.inside, q.get?_names]

theorem leaf (h : site.Shows q s) (pl : Place) (n : String) (rest : Location) :
    s.disk.get? (site.root ++ pl.names ++ n :: rest) = none := by
  rw [List.append_assoc, h.inside, q.get?_below]

theorem exists?_pathOf (h : site.Shows q s) (ho : site.Opens layout) (pl : Place) :
    s.disk.exists? s.cwd (layout.pathOf pl) = (layout.reaches pl && (q.files pl).isSome) := by
  by_cases hpl : q.Houses pl
  · have hlink : ∀ target, s.disk.get? (site.root ++ pl.directory ++ [pl.key.text]) ≠
        some (.link target) := by
      intro target
      rw [List.append_assoc]
      exact h.not_link _ target
    rw [Layout.pathOf, (h.leads_directory ho hpl).exists?_join pl.key.isPlain_text hlink,
      h.get?_place, Option.isSome_map]
    rfl
  · obtain ⟨key, rfl, hshard⟩ := unhoused hpl
    rw [h.files_unhoused hpl]
    have hleads := h.leads_state ho (.inr (.inr rfl))
    have hmissing := h.get?_shard hshard
    rw [layout.pathOf_sharded, hleads.exists?_join_join key.isPlain_shard key.isPlain_text hmissing,
      Option.isSome_none, Bool.and_false]

theorem remove_pathOf (h : site.Shows q s) (ho : site.Opens layout) (pl : Place) :
    s.disk.remove s.cwd (layout.pathOf pl) =
      if layout.reaches pl then
        match q.files pl with
        | none => .error .notFound
        | some _ => .ok (s.disk.erase (site.root ++ pl.names))
      else .error .nameTooLong := by
  by_cases hpl : q.Houses pl
  · rw [Layout.pathOf, (h.leads_directory ho hpl).remove_join pl.key.isPlain_text, h.get?_place,
      layout.isTooLong_pathOf]
    cases layout.reaches pl with
    | false => rfl
    | true =>
      cases q.files pl with
      | none => rfl
      | some u => simp [Entry.isDirectory, Place.names]
  · obtain ⟨key, rfl, hshard⟩ := unhoused hpl
    have hleads := h.leads_state ho (.inr (.inr rfl))
    have hmissing := h.get?_shard hshard
    rw [h.files_unhoused hpl, layout.pathOf_sharded,
      hleads.remove_join_join key.isPlain_shard key.isPlain_text hmissing]
    have hlong := layout.isTooLong_pathOf (.sharded key)
    rw [← Layout.pathOf, layout.pathOf_sharded] at hlong
    rw [hlong]
    cases layout.reaches (.sharded key) <;> rfl

theorem rename_pathOf (h : site.Shows q s) (ho : site.Opens layout) {src dst : Place}
    (hne : src ≠ dst) (hdst : q.Houses dst) :
    s.disk.rename s.cwd (layout.pathOf src) (layout.pathOf dst) =
      if layout.reaches src && layout.reaches dst then
        if (q.files src).isSome then
          .ok (s.disk.moveTree (site.root ++ src.names) (site.root ++ dst.names))
        else .error .notFound
      else .error .nameTooLong := by
  have htarget := h.leads_directory ho hdst
  by_cases hsrc : q.Houses src
  · have hfile : ∀ pl : Place, ∀ e,
        s.disk.get? (site.root ++ pl.directory ++ [pl.key.text]) = some e →
          ∃ contents, e = .file contents := by
      intro pl e he
      rw [h.get?_place] at he
      obtain ⟨u, -, rfl⟩ := Option.map_eq_some_iff.1 he
      exact ⟨_, rfl⟩
    have hopen : (s.disk.get? (site.root ++ dst.directory)).any Entry.isOpen := by
      rw [h.get?_directory hdst]
      rfl
    have hdeep : ∀ a b : Place, a ≠ b →
        ¬(site.root ++ a.directory ++ [a.key.text]) <+:
          (site.root ++ b.directory ++ [b.key.text]) := by
      intro a b hab hp
      rw [List.append_assoc, List.append_assoc, List.prefix_append_right_inj] at hp
      exact Place.not_prefix hab hp
    rw [Layout.pathOf, Layout.pathOf, (h.leads_directory ho hsrc).rename_join htarget
      src.key.isPlain_text dst.key.isPlain_text hopen
      (by rw [h.volume_directory hsrc, h.volume_directory hdst]) (hfile src) (hfile dst)
      (hdeep _ _ hne) (hdeep _ _ hne.symm), h.get?_place, Option.isSome_map]
    simp only [layout.isTooLong_pathOf]
    cases layout.reaches src <;> cases layout.reaches dst <;> simp [Place.names]
  · obtain ⟨key, rfl, hshard⟩ := unhoused hsrc
    have hleads := h.leads_state ho (.inr (.inr rfl))
    have hmissing := h.get?_shard hshard
    rw [h.files_unhoused hsrc, layout.pathOf_sharded, Layout.pathOf,
      hleads.rename_join_join key.isPlain_shard key.isPlain_text hmissing
        (htarget.checkNull_join dst.key.isPlain_text)]
    have hlong := layout.isTooLong_pathOf (.sharded key)
    rw [← Layout.pathOf, layout.pathOf_sharded] at hlong
    rw [hlong]
    cases hreach : layout.reaches (.sharded key) with
    | false => rfl
    | true => simp [Layout.reaches_of_sharded hreach dst]

/-! ### What is shown afterwards -/

theorem congr (h : site.Shows q s) {s' : System} (hdisk : s'.disk = s.disk)
    (hcwd : s'.cwd = s.cwd) : site.Shows q s' where
  cwd := hcwd.trans h.cwd
  inside := by rw [hdisk]; exact h.inside
  outside := by rw [hdisk]; exact h.outside
  housed := h.housed

/-- A disk that differs in one entry of the queue shows a queue that differs in it. -/
theorem change (h : site.Shows q s) {q' : Queue} {disk : Disk} {k : Location}
    {r : Option Entry} (hdisk : ∀ l, disk.get? l = if l = site.root ++ k then r else s.disk.get? l)
    (hqueue : ∀ l, q'.get? l = if l = k then r else q.get? l)
    (hhoused : ∀ pl, (q'.files pl).isSome → q'.Houses pl) :
    site.Shows q' { s with disk } where
  cwd := h.cwd
  inside l := by
    rw [hqueue]
    show disk.get? _ = _
    rw [hdisk, h.inside]
    simp only [List.append_cancel_left_eq]
  outside l hl := by
    show disk.get? _ = _
    rw [hdisk, if_neg, h.outside l hl]
    rintro rfl
    exact hl (List.prefix_append _ _)
  housed := hhoused

theorem housed_set (h : site.Shows q s) {pl : Place} {r : Option Update}
    (hpl : r.isSome → q.Houses pl) (other : Place) (ho : ((q.set pl r).files other).isSome) :
    (q.set pl r).Houses other := by
  rw [Queue.files_set] at ho
  split at ho
  · rename_i heq
    subst heq
    exact hpl ho
  · exact h.housed other ho

theorem erase (h : site.Shows q s) (pl : Place) :
    site.Shows (q.set pl none) { s with disk := s.disk.erase (site.root ++ pl.names) } := by
  refine h.change (r := none) (fun l => Disk.get?_erase ..) (fun l => ?_) (h.housed_set (by simp))
  rw [q.get?_set]
  rfl

theorem move (h : site.Shows q s) {src dst : Place} (hdst : q.Houses dst) {u : Update}
    (hu : q.files src = some u) :
    site.Shows ((q.set src none).set dst (some u))
      { s with disk := s.disk.moveTree (site.root ++ src.names) (site.root ++ dst.names) } := by
  have hfile : s.disk.get? (site.root ++ src.names) = some (.file u.record) := by
    rw [h.get?_names, hu]
    rfl
  have hget := Disk.get?_moveTree hfile (h.leaf src) (h.leaf dst)
  refine (h.erase src).change (k := dst.names) (r := some (.file u.record))
    (fun l => ?_) (fun l => ?_) ?_
  · rw [hget]
    show _ = if _ then _ else (s.disk.erase _).get? l
    rw [Disk.get?_erase]
  · rw [Queue.get?_set]
    rfl
  · exact (h.erase src).housed_set fun _ => hdst

theorem makeShard (h : site.Shows q s) (key : TaskKey) :
    site.Shows (q.addShard key.shard)
      { s with disk := s.disk.put (site.root ++ ["waiting", key.shard]) .directory } := by
  refine h.change (fun l => Disk.get?_put ..) (q.get?_addShard key) fun pl hpl => ?_
  have hhouses := h.housed pl hpl
  cases pl with
  | running other => rfl
  | flat other => rfl
  | sharded other =>
    simp only [Queue.Houses, Place.directory, Queue.isDirectory, decide_true, Bool.true_and,
      Queue.shards_addShard] at hhouses ⊢
    split
    · rfl
    · exact hhouses

theorem build (h : site.Shows q s) (name : String) (bytes : Bytes) :
    site.Shows (q.build name (some bytes))
      { s with disk := s.disk.put (site.root ++ ["building", name]) (.file bytes) } :=
  h.change (fun _ => Disk.get?_put ..) (q.get?_build name (some bytes)) h.housed

theorem unbuild (h : site.Shows q s) (name : String) :
    site.Shows (q.build name none)
      { s with disk := s.disk.erase (site.root ++ ["building", name]) } :=
  h.change (fun _ => Disk.get?_erase ..) (q.get?_build name none) h.housed

theorem append (h : site.Shows q s) {name : String} {contents : Bytes}
    (hbuilt : q.building name = some contents) (bytes : Bytes) :
    site.Shows (q.build name (some (contents ++ bytes)))
      { s with disk := s.disk.append (site.root ++ ["building", name]) bytes } := by
  have hfile : s.disk.get? (site.root ++ ["building", name]) = some (.file contents) := by
    rw [h.inside, q.get?_building, hbuilt]
    rfl
  rw [Disk.append, hfile]
  exact h.build name (contents ++ bytes)

theorem publish (h : site.Shows q s) {name : String} {pl : Place} {u : Update}
    (hbuilt : q.building name = some u.record) (hpl : q.Houses pl) :
    site.Shows ((q.build name none).set pl (some u))
      { s with
        disk := s.disk.moveTree (site.root ++ ["building", name]) (site.root ++ pl.names) } := by
  have hfile : s.disk.get? (site.root ++ ["building", name]) = some (.file u.record) := by
    rw [h.inside, q.get?_building, hbuilt]
    rfl
  have hbelow : ∀ n rest, s.disk.get? (site.root ++ ["building", name] ++ n :: rest) = none := by
    intro n rest
    rw [List.append_assoc, h.inside, q.get?_below_building]
  have hget := Disk.get?_moveTree hfile hbelow (h.leaf pl)
  refine (h.unbuild name).change (k := pl.names) (r := some (.file u.record))
    (fun l => ?_) (fun l => ?_) ?_
  · rw [hget]
    show _ = if _ then _ else (s.disk.erase _).get? l
    rw [Disk.get?_erase]
  · rw [Queue.get?_set]
    rfl
  · exact (h.unbuild name).housed_set fun _ => hpl

end Site.Shows

end ReplicationQueue
