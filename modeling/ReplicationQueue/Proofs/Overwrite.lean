import ReplicationQueue.Config
import ReplicationQueue.Proofs.Lookup

/-! A file that was overwritten holds the new contents under the path that it was written by,
whatever links lead there. -/

namespace ReplicationQueue.Disk

variable {d d' : Disk} {cwd l : Location} {p : Path} {bytes : Bytes}

/-- Whether a file can be put at a location: nothing is there, or a file. -/
def TakesFile (d : Disk) (l : Location) : Prop :=
  ∀ e, d.get? l = some e → ∃ contents, e = .file contents

theorem enter_put {follow follow' : Location → List String → Except Cause Location}
    (htakes : d.TakesFile l)
    (hfollow : ∀ here steps, follow here steps = .ok l → follow' here steps = .ok l)
    (steps : List String) (here : Location) (h : enter d .free follow here steps = .ok l) :
    enter (d.put l (.file bytes)) .existing follow' here steps = .ok l := by
  induction steps generalizing here with
  | nil => exact h
  | cons step rest ih =>
    by_cases hdot : step = "."
    · subst hdot
      rw [enter_dot] at h ⊢
      exact ih here h
    by_cases hup : step = ".."
    · subst hup
      rw [enter_up] at h ⊢
      exact ih _ h
    rw [enter, if_neg hdot, if_neg hup] at h ⊢
    rw [get?_put]
    by_cases hplace : here ++ [step] = l
    · -- The lookup is at the file, so it ends here.
      have hrest : rest = [] := by
        cases he : d.get? (here ++ [step]) with
        | none =>
          simp only [he] at h
          split at h
          · rename_i hfree
            exact hfree.2.1
          · cases h
        | some e =>
          obtain ⟨contents, rfl⟩ := htakes e (hplace ▸ he)
          simp only [he] at h
          split at h
          · assumption
          · cases h
      simp [hplace, hrest]
    · rw [if_neg hplace]
      cases he : d.get? (here ++ [step]) with
      | none =>
        simp only [he] at h
        split at h
        · exact absurd (Except.ok.inj h) hplace
        · cases h
      | some e =>
        simp only [he] at h
        have elsewhere : (if rest = [] then .ok (here ++ [step]) else .error .notDirectory) ≠
            (.ok l : Except Cause Location) := by
          split
          · exact fun heq => hplace (Except.ok.inj heq)
          · simp
        cases e with
        | directory => exact ih _ h
        | mount _ => exact ih _ h
        | removed => exact ih _ h
        | file contents => exact absurd h elsewhere
        | special => exact absurd h elsewhere
        | link target => exact hfollow _ _ h

theorem resolve_put (htakes : d.TakesFile l) (links : Nat) (here : Location) (steps : List String)
    (h : resolve d .free links here steps = .ok l) :
    resolve (d.put l (.file bytes)) .existing links here steps = .ok l := by
  induction links generalizing here steps with
  | zero => exact enter_put htakes (by simp) _ _ h
  | succ links ih => exact enter_put htakes ih _ _ h

/-- What is written, and where. -/
theorem overwrite_ok (h : d.overwrite cwd p bytes = .ok d') :
    ∃ l, checkPath p = .ok () ∧ d.TakesFile l ∧
      resolve d .free maxLinks (start cwd p) (Path.stepsOf p.text) = .ok l ∧
      d' = d.put l (.file bytes) := by
  have hcheck : checkPath p = .ok () := by
    cases hcheck : checkPath p with
    | ok => rfl
    | error cause =>
      rw [overwrite, slot, hcheck] at h
      cases h
  rw [overwrite] at h
  cases hslot : d.slot cwd p with
  | error cause =>
    rw [hslot] at h
    cases h
  | ok slot =>
    rw [hslot] at h
    cases slot with
    | special => cases h
    | named directory name slash =>
      cases slash with
      | true => cases h
      | false =>
        cases hresolve : resolve d .free maxLinks (start cwd p) (Path.stepsOf p.text) with
        | error cause =>
          simp only [bind, Except.bind, hresolve] at h
          cases h
        | ok l =>
          simp only [bind, Except.bind, hresolve] at h
          refine ⟨l, hcheck, fun e he => ?_, rfl, ?_⟩
          · rw [he] at h
            cases e with
            | file contents => exact ⟨contents, rfl⟩
            | directory => cases h
            | mount _ => cases h
            | removed => cases h
            | link target => cases h
            | special => cases h
          · split at h <;> cases h
            rfl

theorem contents_overwrite (h : d.overwrite cwd p bytes = .ok d') :
    d'.contents cwd p = .ok bytes := by
  obtain ⟨l, hcheck, htakes, hresolve, rfl⟩ := overwrite_ok h
  have hlocate : (d.put l (.file bytes)).locate cwd p = .ok l := by
    rw [locate, hcheck]
    exact resolve_put htakes maxLinks _ _ hresolve
  rw [contents, status, hlocate]
  simp only [Except.bind, bind, get?_put, if_true]
  rfl

end ReplicationQueue.Disk
