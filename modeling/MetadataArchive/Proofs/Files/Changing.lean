import MetadataArchive.Proofs.Files.Following

/-!
# What operations on files change

Every operation that succeeds changes what stands at one place, where no directory was. Whatever was
found through directories is found again afterwards: a path leads to the file just written there and
to nothing where a file was just removed, and to do the same once more changes nothing further.
-/

namespace MetadataArchive.FileSystem

variable {s s' : FileSystem} {p : Path} {l place : Location} {names : List String}
  {content : ByteArray}

/-- What stands at one place may have changed. It was no directory. -/
structure ChangesAt (s s' : FileSystem) (place : Location) : Prop where
  limits : s'.limits = s.limits
  node?_ne : s.node? place ≠ some .directory
  node?_eq : ∀ q, q ≠ place → s'.node? q = s.node? q

theorem checkPath_congr (h : s'.limits = s.limits) (p : Path) : s'.checkPath p = s.checkPath p := by
  unfold checkPath
  rw [h]

theorem ChangesAt.node?_directory (h : s.ChangesAt s' place) (hl : s.node? l = some .directory) :
    s'.node? l = some .directory := by
  have hne : l ≠ place := by
    rintro rfl
    exact h.node?_ne hl
  rw [h.node?_eq l hne, hl]

/-- The way to a directory is the same as before. -/
theorem ChangesAt.resolve (h : s.ChangesAt s' place) (hl : s.resolve names = .ok l)
    (hdirectory : s.node? l = some .directory) : s'.resolve names = .ok l := by
  induction names using List.reverseRecOn generalizing l with
  | nil => exact hl
  | append_singleton names name ih =>
    rw [resolve_append_singleton_eq_ok_iff] at hl ⊢
    obtain ⟨m, hbefore, hstep⟩ := hl
    obtain ⟨hm, hname⟩ := stepPlace_eq_ok_iff.1 hstep
    refine ⟨m, ih hbefore hm, stepPlace_eq_ok_iff.2 ⟨h.node?_directory hm, ?_⟩⟩
    -- the last name leads on as before, since a directory that was there is there
    rwa [h.limits, h.node?_directory hdirectory, ← hdirectory]

theorem ChangesAt.isDirectory (h : s.ChangesAt s' place) (hp : s.isDirectory p = true) :
    s'.isDirectory p = true := by
  obtain ⟨hpath, htext, l, hl, hdirectory⟩ := isDirectory_iff.1 hp
  rw [← checkPath_congr h.limits] at hpath
  exact isDirectory_iff.2 ⟨hpath, htext, l, h.resolve hl hdirectory, h.node?_directory hdirectory⟩

theorem ChangesAt.locates (h : s.ChangesAt s' place) {q : Location} (hp : s.Locates p q) :
    s'.Locates p q := by
  obtain ⟨hpath, hnames, hdots, hsize, hl, hdirectory⟩ := hp
  rw [← checkPath_congr h.limits] at hpath
  rw [← h.limits] at hsize
  exact .intro hpath hnames hdots hsize (h.resolve hl hdirectory) (h.node?_directory hdirectory)

/-! ## Changing an entry -/

theorem replace_replace (s : FileSystem) (place : Location) (new : Option FileTree) :
    (s.replace place new).replace place new = s.replace place new := by
  simp [replace, FileTree.replace_replace]

section

variable {new : Option FileTree} (hp : s.Locates p place)

include hp

theorem Locates.at?_replace_self : (s.replace place new).top.at? place = new := by
  obtain ⟨l, name, rfl, hdirectory⟩ := hp.exists_parent
  obtain ⟨entries, hentries⟩ := FileTree.node?_eq_directory_iff.1 hdirectory
  exact FileTree.at?_replace_self hentries name new

variable (hold : s.node? place ≠ some .directory) (hnew : ∀ t ∈ new, t.IsLeaf)

include hold hnew

theorem Locates.node?_replace (q : Location) :
    (s.replace place new).node? q = if q = place then new.map FileTree.node else s.node? q := by
  obtain ⟨l, name, rfl, hdirectory⟩ := hp.exists_parent
  exact FileTree.node?_replace hdirectory hold hnew q

theorem Locates.changesAt_replace : s.ChangesAt (s.replace place new) place where
  limits := rfl
  node?_ne := hold
  node?_eq q hq := by rw [hp.node?_replace hold hnew, if_neg hq]

/-- A path to an entry leads to what is put there. -/
theorem Locates.locates_replace : (s.replace place new).Locates p place :=
  (hp.changesAt_replace hold hnew).locates hp

theorem Locates.resolve_replace : (s.replace place new).resolve p.names =
    if new.isSome then .ok place else .error .notFound := by
  rw [(hp.locates_replace hold hnew).resolve_eq, hp.node?_replace hold hnew, if_pos rfl,
    Option.isSome_map]

end

/-! ## What operations that succeed have changed -/

theorem write_eq_ok_iff : s.write p content = .ok s' ↔
    ∃ place, s.Locates p place ∧ s.node? place ≠ some .directory ∧ p.endsWithSlash = false ∧
      s' = s.replace place (some (.file content)) := by
  unfold write
  refine (target_bind_eq_ok_iff (by simp)).trans
    (exists_congr fun place => and_congr_right fun _ => ?_)
  unfold node? FileTree.node?
  rcases s.top.at? place with _ | (old | entries)
  · cases p.endsWithSlash <;> simp [eq_comm]
  · cases p.endsWithSlash <;> simp [FileTree.node, eq_comm]
  · simp [FileTree.node]

theorem remove_eq_ok_iff : s.remove p = .ok s' ↔
    ∃ place content, s.Locates p place ∧ s.node? place = some (.file content) ∧
      p.endsWithSlash = false ∧ s' = s.replace place none := by
  unfold remove
  refine (target_bind_eq_ok_iff (by simp)).trans (exists_congr fun place => ?_)
  rw [exists_and_left]
  refine and_congr_right fun _ => ?_
  unfold node? FileTree.node?
  rcases s.top.at? place with _ | (old | entries)
  · simp
  · cases p.endsWithSlash <;> simp [FileTree.node, eq_comm]
  · simp [FileTree.node]

theorem makeDirectory_eq_ok_iff : s.makeDirectory p = .ok s' ↔
    ∃ place, s.Locates p place ∧ s.node? place = none ∧
      s' = s.replace place (some .empty) := by
  unfold makeDirectory
  refine (target_bind_eq_ok_iff (by simp)).trans
    (exists_congr fun place => and_congr_right fun _ => ?_)
  unfold node? FileTree.node?
  cases s.top.at? place with
  | none => simp [eq_comm]
  | some t => simp

/-! ## Afterwards -/

theorem changesAt_of_write (h : s.write p content = .ok s') : ∃ place, s.ChangesAt s' place := by
  obtain ⟨place, hp, hnode, -, rfl⟩ := write_eq_ok_iff.1 h
  exact ⟨place, hp.changesAt_replace hnode (by simp)⟩

/-- What was written is found. -/
theorem find_write (h : s.write p content = .ok s') : s'.find p = .ok (.file content) := by
  obtain ⟨place, hp, hnode, hslash, rfl⟩ := write_eq_ok_iff.1 h
  have hleaf : ∀ t ∈ some (FileTree.file content), t.IsLeaf := by simp
  have hresolve := hp.resolve_replace hnode hleaf
  obtain ⟨hpath, hnames, -, -, -, -⟩ := hp.locates_replace hnode hleaf
  exact find_eq_ok_iff.2 ⟨hpath, Path.text_ne_of_names_ne (by simp [hnames]), _, hresolve,
    hp.at?_replace_self, by simp [hslash]⟩

/-- To write the same once more changes nothing. -/
theorem write_write (h : s.write p content = .ok s') : s'.write p content = .ok s' := by
  obtain ⟨place, hp, hnode, hslash, rfl⟩ := write_eq_ok_iff.1 h
  have hleaf : ∀ t ∈ some (FileTree.file content), t.IsLeaf := by simp
  refine write_eq_ok_iff.2
    ⟨place, hp.locates_replace hnode hleaf, ?_, hslash, (replace_replace _ _ _).symm⟩
  rw [hp.node?_replace hnode hleaf, if_pos rfl]
  simp [FileTree.node]

/-- What was removed is not found. -/
theorem contains_remove (h : s.remove p = .ok s') : s'.contains p = false := by
  obtain ⟨place, content, hp, hnode, -, rfl⟩ := remove_eq_ok_iff.1 h
  have hleaf : ∀ t ∈ (none : Option FileTree), t.IsLeaf := by simp
  have hresolve := hp.resolve_replace (by simp [hnode]) hleaf
  rw [← Bool.not_eq_true, contains_eq_true_iff]
  rintro ⟨t, ht⟩
  obtain ⟨-, -, l, hl, -⟩ := find_eq_ok_iff.1 ht
  rw [hresolve] at hl
  cases hl

/-- What was removed is not there to be removed again. -/
theorem remove_remove (h : s.remove p = .ok s') : s'.remove p = .error .notFound := by
  obtain ⟨place, content, hp, hnode, -, rfl⟩ := remove_eq_ok_iff.1 h
  have hleaf : ∀ t ∈ (none : Option FileTree), t.IsLeaf := by simp
  have hlater := hp.locates_replace (by simp [hnode]) hleaf
  unfold remove
  rw [hlater.target_eq, hp.at?_replace_self]
  rfl

/-- Only what is not found cannot be removed for the reason that it is not there. -/
theorem contains_of_remove_eq_notFound (h : s.remove p = .error .notFound) :
    s.contains p = false := by
  rw [← Bool.not_eq_true]
  intro hcontains
  unfold remove at h
  rcases target_of_contains hcontains with htarget | ⟨place, t, htarget⟩
  · rw [htarget] at h
    cases h
  · rw [htarget] at h
    cases t with
    | directory entries => cases h
    | file content =>
      by_cases hslash : p.endsWithSlash = true
      · simp [bind, Except.bind, hslash] at h
      · simp [bind, Except.bind, hslash] at h

/-! ## Making directories -/

theorem contains_of_isDirectory (h : s.isDirectory p = true) : s.contains p = true := by
  unfold isDirectory at h
  unfold contains
  cases hfind : s.find p with
  | error e =>
    rw [hfind] at h
    cases h
  | ok t => rfl

/-- A directory that was made is there. -/
theorem isDirectory_makeDirectory (h : s.makeDirectory p = .ok s') : s'.isDirectory p = true := by
  obtain ⟨place, hp, hnode, rfl⟩ := makeDirectory_eq_ok_iff.1 h
  have hleaf : ∀ t ∈ some FileTree.empty, t.IsLeaf := by simp
  have hresolve := hp.resolve_replace (by simp [hnode]) hleaf
  have hnode' := hp.node?_replace (by simp [hnode]) hleaf place
  obtain ⟨hpath, hnames, -, -, -, -⟩ := hp.locates_replace (by simp [hnode]) hleaf
  exact isDirectory_iff.2 ⟨hpath, Path.text_ne_of_names_ne (by simp [hnames]), _, hresolve,
    hnode'.trans (if_pos rfl)⟩

/-- A directory that is there is not made. -/
theorem ensureDirectory_of_isDirectory (h : s.isDirectory p = true) :
    s.ensureDirectory p = (s, .ok ()) := by
  have hmake : ∃ e, s.makeDirectory p = .error e := by
    unfold makeDirectory
    rcases target_of_contains (contains_of_isDirectory h) with htarget | ⟨place, t, htarget⟩
    · exact ⟨_, by rw [htarget]; rfl⟩
    · exact ⟨_, by rw [htarget]; rfl⟩
  obtain ⟨e, hmake⟩ := hmake
  unfold ensureDirectory
  rw [hmake]
  exact if_pos h

theorem isDirectory_of_ensureDirectory (h : s.ensureDirectory p = (s', .ok ())) :
    s'.isDirectory p = true := by
  unfold ensureDirectory at h
  cases hmake : s.makeDirectory p with
  | ok s₁ =>
    rw [hmake] at h
    cases h
    exact isDirectory_makeDirectory hmake
  | error e =>
    rw [hmake] at h
    dsimp only at h
    split at h
    · next hdirectory =>
      cases h
      exact hdirectory
    · cases h

/-- Once the directories are made, the first of them is there. -/
theorem isDirectory_of_ensureDirectories {outer : List Path}
    (h : s.ensureDirectories (p :: outer) = (s', .ok ())) : s'.isDirectory p = true := by
  unfold ensureDirectories at h
  split at h
  · split at h
    · exact isDirectory_of_ensureDirectory h
    · cases h
  · exact isDirectory_of_ensureDirectory h

/-- Where the directory is there, making it changes nothing. -/
theorem makeDirectories_of_isDirectory (h : s.isDirectory p = true) :
    s.makeDirectories p = (s, .ok ()) := by
  obtain ⟨-, htext, -⟩ := isDirectory_iff.1 h
  unfold makeDirectories
  rw [if_neg htext]
  unfold ensureDirectories
  rw [ensureDirectory_of_isDirectory h]

theorem isDirectory_of_makeDirectories (h : s.makeDirectories p = (s', .ok ()))
    (htext : p.text ≠ "") : s'.isDirectory p = true := by
  unfold makeDirectories at h
  rw [if_neg htext] at h
  exact isDirectory_of_ensureDirectories h

end MetadataArchive.FileSystem
