import MetadataArchive.Proofs.Files.Changing
import MetadataArchive.Proofs.Files.Ordinary

/-!
# Clear ways

If nothing limits the length of names, what operations on an ordinary path do depends on two things
only: on what stands at its place, and on whether the way there is clear of files. Directories that
are missing on a clear way can all be made, and where the way is not clear, none is.
-/

namespace MetadataArchive.FileSystem

open MetadataArchive.Path (placeOf)

variable {s s' : FileSystem} {p : Path} {l : Location} {names before : List String} {name : String}
  {content : ByteArray}

/-! ## Clear ways -/

/-- No file stands at a place or on the way there. -/
def Clear (s : FileSystem) (l : Location) : Prop :=
  ∀ q content, q <+: l → s.node? q ≠ some (.file content)

theorem Clear.of_isPrefix (h : s.Clear l) {m : Location} (hm : m <+: l) : s.Clear m :=
  fun q content hq => h q content (hq.trans hm)

theorem clear_append_singleton_iff :
    s.Clear (l ++ [name]) ↔ s.Clear l ∧ ∀ content, s.node? (l ++ [name]) ≠ some (.file content) := by
  constructor
  · intro h
    exact ⟨h.of_isPrefix (List.prefix_append _ _), fun content => h _ content List.prefix_rfl⟩
  · rintro ⟨hl, hlast⟩ q content hq
    rcases List.prefix_concat_iff.1 hq with rfl | hq
    · exact hlast content
    · exact hl q content hq

theorem exists_file_of_not_clear (hclear : s.Clear l) (h : ¬ s.Clear (l ++ [name])) :
    ∃ content, s.node? (l ++ [name]) = some (.file content) := by
  simpa [clear_append_singleton_iff, hclear] using h

/-- What stands somewhere but at the top stands in a directory. -/
theorem node?_eq_directory_of_append_singleton {node : FileNode}
    (h : s.node? (l ++ [name]) = some node) : s.node? l = some .directory :=
  FileTree.node?_of_node?_append_singleton (by rw [show s.top.node? _ = _ from h]; simp)

/-- All places on the way to a directory are directories. -/
theorem node?_of_isPrefix_directory (h : s.node? l = some .directory) {q : Location}
    (hq : q <+: l) : s.node? q = some .directory := by
  by_cases heq : q = l
  · rw [heq, h]
  · exact FileTree.node?_of_isPrefix hq heq (by rw [show s.top.node? l = _ from h]; simp)

theorem clear_of_directory (h : s.node? l = some .directory) : s.Clear l := by
  intro q content hq
  simp [node?_of_isPrefix_directory h hq]

theorem Clear.node?_eq (h : s.Clear l) : s.node? l = some .directory ∨ s.node? l = none := by
  cases hnode : s.node? l with
  | none => exact .inr rfl
  | some node =>
    cases node with
    | file content => exact absurd hnode (h l content List.prefix_rfl)
    | directory => exact .inl rfl

/-- All places on the way to a place are directories, and nothing else changed. -/
structure MadeTo (s s' : FileSystem) (l : Location) : Prop where
  limits : s'.limits = s.limits
  node?_eq : ∀ q, s'.node? q = if q <+: l then some .directory else s.node? q

theorem madeTo_self (h : s.node? l = some .directory) : s.MadeTo s l where
  limits := rfl
  node?_eq q := by
    split
    · next hq => exact node?_of_isPrefix_directory h hq
    · rfl

theorem MadeTo.node?_self (h : s.MadeTo s' l) : s'.node? l = some .directory := by
  rw [h.node?_eq, if_pos List.prefix_rfl]

theorem MadeTo.clear (h : s.MadeTo s' l) {m : Location} (hm : s.Clear m) : s'.Clear m := by
  intro q content hq
  rw [h.node?_eq]
  split
  · simp
  · exact hm q content hq

theorem MadeTo.trans {s'' : FileSystem} {m : Location} (h : s.MadeTo s' l) (hlm : l <+: m)
    (h' : s'.MadeTo s'' m) : s.MadeTo s'' m where
  limits := h'.limits.trans h.limits
  node?_eq q := by
    rw [h'.node?_eq, h.node?_eq]
    by_cases hq : q <+: l
    · simp [hq.trans hlm]
    · simp [hq]

/-- Nothing is in the way of a file at a place. -/
structure Admits (s : FileSystem) (place : Location) : Prop where
  clear : s.Clear place.dropLast
  node?_ne : s.node? place ≠ some .directory

theorem node?_eq_directory_of_not_admits {place : Location} (hclear : s.Clear place.dropLast)
    (h : ¬ s.Admits place) : s.node? place = some .directory := by
  by_contra hne
  exact h ⟨hclear, hne⟩

/-- Nothing was made or removed but directories that were missing around a place. -/
def MakesOnly (s s' : FileSystem) (place : Location) : Prop :=
  ∀ q, s'.node? q = s.node? q ∨
    q <+: place ∧ q ≠ place ∧ s.node? q = none ∧ s'.node? q = some .directory

/-- Nothing was made or removed but a file at a place, and directories that were missing around. -/
def ChangesOnly (s s' : FileSystem) (place : Location) : Prop :=
  ∀ q, s'.node? q = s.node? q ∨
    q = place ∧ s.node? q ≠ some .directory ∧ s'.node? q ≠ some .directory ∨
    q <+: place ∧ q ≠ place ∧ s.node? q = none ∧ s'.node? q = some .directory

theorem makesOnly_refl (s : FileSystem) (place : Location) : s.MakesOnly s place :=
  fun _ => .inl rfl

theorem changesOnly_refl (s : FileSystem) (place : Location) : s.ChangesOnly s place :=
  fun _ => .inl rfl

theorem MadeTo.makesOnly {place : Location} (h : s.MadeTo s' place.dropLast)
    (hclear : s.Clear place.dropLast) : s.MakesOnly s' place := by
  intro q
  rw [h.node?_eq]
  by_cases hway : q <+: place.dropLast
  · rw [if_pos hway]
    rcases (hclear.of_isPrefix hway).node?_eq with hdirectory | hmissing
    · exact .inl hdirectory.symm
    · refine .inr ⟨hway.trans (List.dropLast_prefix place), ?_, hmissing, rfl⟩
      rintro rfl
      have hnil : q = [] := by
        have hlength := hway.length_le
        rw [List.length_dropLast] at hlength
        exact List.eq_nil_of_length_eq_zero (by omega)
      simp [hnil, node?] at hmissing
  · rw [if_neg hway]
    exact .inl rfl

/-- Directories were made, and then the entry at the place changed. -/
theorem MakesOnly.changesOnly {s'' : FileSystem} {place : Location} (h : s.MakesOnly s' place)
    (hchange : s'.ChangesAt s'' place) (hnode : s''.node? place ≠ some .directory) :
    s.ChangesOnly s'' place := by
  intro q
  by_cases hq : q = place
  · subst hq
    rcases h q with hkept | ⟨-, hne, -⟩
    · exact .inr (.inl ⟨rfl, hkept ▸ hchange.node?_ne, hnode⟩)
    · exact absurd rfl hne
  · rw [hchange.node?_eq q hq]
    exact (h q).imp_right .inr

/-! ## Where names lead -/

theorem stepPlace_dot (h : s.node? l = some .directory) : s.stepPlace l "." = .ok l := by
  simp [stepPlace, h]

theorem stepPlace_of_not_directory (h : s.node? l ≠ some .directory) (name : String) :
    s.stepPlace l name = .error .notADirectory := by
  simp [stepPlace, h]

/-- Names that lead somewhere lead to the place that they are. -/
theorem eq_placeOf_of_resolve (hdots : ".." ∉ names) (h : s.resolve names = .ok l) :
    l = placeOf names := by
  induction names, hdots using Path.forwardInduction generalizing l with
  | nil =>
    cases h
    rfl
  | dot names hnames ih =>
    obtain ⟨m, hbefore, hstep⟩ := resolve_append_singleton_eq_ok_iff.1 h
    obtain rfl := ih hbefore
    obtain ⟨hdirectory, -⟩ := stepPlace_eq_ok_iff.1 hstep
    rw [stepPlace_dot hdirectory] at hstep
    cases hstep
    rw [Path.placeOf_append_dot]
  | name names name hnames hdot hdots ih =>
    obtain ⟨m, hbefore, hstep⟩ := resolve_append_singleton_eq_ok_iff.1 h
    obtain rfl := ih hbefore
    obtain ⟨-, hname⟩ := stepPlace_eq_ok_iff.1 hstep
    simp only [hdot, hdots, false_and, false_or] at hname
    rw [hname.2.2.2, Path.placeOf_append_singleton hdot]

/-- An entry that a path leads to is at its place, and the way there is clear. -/
theorem eq_place_of_locates (hdots : ".." ∉ p.names) {place : Location} (h : s.Locates p place) :
    place = p.place ∧ s.node? place.dropLast = some .directory := by
  obtain ⟨-, hnames, hnot, -, hl, hdirectory⟩ := h
  rw [hnames, List.mem_append, not_or] at hdots
  rw [eq_placeOf_of_resolve hdots.1 hl] at hdirectory ⊢
  rw [Path.place, hnames, Path.placeOf_append_singleton (not_or.1 hnot).1, List.dropLast_concat]
  exact ⟨rfl, hdirectory⟩

theorem MakesOnly.changesOnly_of_write {s'' : FileSystem} (hdots : ".." ∉ p.names)
    (h : s.MakesOnly s' p.place) (hwrite : s'.write p content = .ok s'') :
    s.ChangesOnly s'' p.place := by
  obtain ⟨place, hlocates, hnode, -, rfl⟩ := write_eq_ok_iff.1 hwrite
  obtain ⟨rfl, -⟩ := eq_place_of_locates hdots hlocates
  have hleaf : ∀ t ∈ some (FileTree.file content), t.IsLeaf := by simp
  refine h.changesOnly (hlocates.changesAt_replace hnode hleaf) ?_
  rw [hlocates.node?_replace hnode hleaf, if_pos rfl]
  simp [FileTree.node]

theorem changesOnly_of_remove (hdots : ".." ∉ p.names) (h : s.remove p = .ok s') :
    s.ChangesOnly s' p.place := by
  obtain ⟨place, content, hlocates, hnode, -, rfl⟩ := remove_eq_ok_iff.1 h
  obtain ⟨rfl, -⟩ := eq_place_of_locates hdots hlocates
  refine (s.makesOnly_refl p.place).changesOnly (hlocates.changesAt_replace (by simp [hnode]) (by simp)) ?_
  rw [hlocates.node?_replace (by simp [hnode]) (by simp), if_pos rfl]
  simp

/-- A file is written only where nothing is in its way. -/
theorem admits_of_write (hdots : ".." ∉ p.names) (h : s.write p content = .ok s') :
    s.Admits p.place := by
  obtain ⟨place, hlocates, hnode, -, -⟩ := write_eq_ok_iff.1 h
  obtain ⟨rfl, hdirectory⟩ := eq_place_of_locates hdots hlocates
  exact ⟨clear_of_directory hdirectory, hnode⟩

section

variable (hlimits : s.limits = .unlimited)

include hlimits

theorem stepPlace_of_ne (hdot : name ≠ ".") (hdots : name ≠ "..")
    (h : s.node? l = some .directory) :
    s.stepPlace l name =
      if (s.node? (l ++ [name])).isSome then .ok (l ++ [name]) else .error .notFound := by
  simp [stepPlace, h, hdot, hdots, hlimits, FileLimits.unlimited, FileLimits.exceeds]

theorem resolve_of_directory (hdots : ".." ∉ names)
    (h : s.node? (placeOf names) = some .directory) : s.resolve names = .ok (placeOf names) := by
  induction names, hdots using Path.forwardInduction with
  | nil => rfl
  | dot names hnames ih =>
    rw [Path.placeOf_append_dot] at h ⊢
    rw [resolve_append_singleton, ih h]
    exact stepPlace_dot h
  | name names name hnames hdot hdots ih =>
    rw [Path.placeOf_append_singleton hdot] at h ⊢
    have hbefore := node?_eq_directory_of_append_singleton h
    rw [resolve_append_singleton, ih hbefore]
    exact (stepPlace_of_ne hlimits hdot hdots hbefore).trans (if_pos (by simp [h]))

/-- On a clear way something is missing where names lead nowhere. -/
theorem resolve_of_clear (hdots : ".." ∉ names) (hclear : s.Clear (placeOf names))
    (h : s.node? (placeOf names) = none) : s.resolve names = .error .notFound := by
  induction names, hdots using Path.forwardInduction with
  | nil => simp [placeOf, node?] at h
  | dot names hnames ih =>
    rw [Path.placeOf_append_dot] at h hclear
    rw [resolve_append_singleton, ih hclear h]
    rfl
  | name names name hnames hdot hdots ih =>
    rw [Path.placeOf_append_singleton hdot] at h hclear
    have hbefore : s.Clear (placeOf names) := hclear.of_isPrefix (List.prefix_append _ _)
    rw [resolve_append_singleton]
    rcases hbefore.node?_eq with hdirectory | hmissing
    · rw [resolve_of_directory hlimits hnames hdirectory]
      exact (stepPlace_of_ne hlimits hdot hdots hdirectory).trans (if_neg (by simp [h]))
    · rw [ih hbefore hmissing]
      rfl

/-- Names on whose way a file stands lead to it, or nowhere since it is no directory. -/
theorem resolve_of_not_clear (hdots : ".." ∉ names) (h : ¬ s.Clear (placeOf names)) :
    s.resolve names = .ok (placeOf names) ∧ s.node? (placeOf names) ≠ some .directory ∨
      s.resolve names = .error .notADirectory := by
  have hblocked : ∀ names name, (s.resolve names = .ok (placeOf names) ∧
      s.node? (placeOf names) ≠ some .directory ∨ s.resolve names = .error .notADirectory) →
      s.resolve (names ++ [name]) = .error .notADirectory := by
    rintro names name (⟨hresolve, hnode⟩ | hresolve)
    · rw [resolve_append_singleton, hresolve]
      exact stepPlace_of_not_directory hnode name
    · rw [resolve_append_singleton, hresolve]
      rfl
  induction names, hdots using Path.forwardInduction with
  | nil => exact .inl ⟨rfl, fun hnode => h (clear_of_directory hnode)⟩
  | dot names hnames ih =>
    rw [Path.placeOf_append_dot] at h
    exact .inr (hblocked names "." (ih h))
  | name names name hnames hdot hdots ih =>
    by_cases hbefore : s.Clear (placeOf names)
    · -- the file is what the last name stands for
      rw [Path.placeOf_append_singleton hdot] at h ⊢
      obtain ⟨content, hnode⟩ := exists_file_of_not_clear hbefore h
      have hparent := node?_eq_directory_of_append_singleton hnode
      left
      rw [resolve_append_singleton, resolve_of_directory hlimits hnames hparent]
      exact ⟨(stepPlace_of_ne hlimits hdot hdots hparent).trans (if_pos (by simp [hnode])),
        by simp [hnode]⟩
    · exact .inr (hblocked names name (ih hbefore))

/-! ## What a path refers to -/

theorem checkPath_of_isOrdinary (hp : p.IsOrdinary) : s.checkPath p = .ok () :=
  checkPath_eq_ok_iff.2
    ⟨hp.nul_not_mem, by simp [hlimits, FileLimits.unlimited, FileLimits.exceeds]⟩

theorem locates_of_directory (hp : p.LeadsOn before name)
    (h : s.node? (placeOf before) = some .directory) : s.Locates p p.place := by
  rw [hp.place_eq]
  refine .intro (checkPath_of_isOrdinary hlimits hp.isOrdinary) hp.names_eq ?_ ?_
    (resolve_of_directory hlimits hp.dots_not_mem_before h) h
  · rintro (hdot | rfl)
    · exact hp.ne_dot hdot
    · exact hp.isOrdinary.dots_not_mem (by simp [hp.names_eq])
  · simp [hlimits, FileLimits.unlimited, FileLimits.exceeds]

theorem target_of_clear (hp : p.LeadsOn before name) (hclear : s.Clear (placeOf before))
    (h : s.node? (placeOf before) = none) : s.target p = .error .notFound := by
  rw [target_eq (checkPath_of_isOrdinary hlimits hp.isOrdinary) hp.names_eq,
    resolve_of_clear hlimits hp.dots_not_mem_before hclear h]
  rfl

theorem target_of_not_clear (hp : p.LeadsOn before name) (h : ¬ s.Clear (placeOf before)) :
    s.target p = .error .notADirectory := by
  rw [target_eq (checkPath_of_isOrdinary hlimits hp.isOrdinary) hp.names_eq]
  rcases resolve_of_not_clear hlimits hp.dots_not_mem_before h with ⟨hresolve, hnode⟩ | hresolve
  · rw [hresolve]
    exact if_neg hnode
  · rw [hresolve]
    rfl

theorem isDirectory_iff_node? (hp : p.LeadsOn before name) :
    s.isDirectory p = true ↔ s.node? p.place = some .directory := by
  rw [isDirectory_iff]
  constructor
  · rintro ⟨-, -, l, hl, hdirectory⟩
    rwa [Path.place, ← eq_placeOf_of_resolve hp.isOrdinary.dots_not_mem hl]
  · intro h
    exact ⟨checkPath_of_isOrdinary hlimits hp.isOrdinary, hp.text_ne, p.place,
      resolve_of_directory hlimits hp.isOrdinary.dots_not_mem h, h⟩

/-! ## Files -/

theorem write_of_directory (hp : p.LeadsOn before name) (hslash : p.endsWithSlash = false)
    (hbefore : s.node? (placeOf before) = some .directory) (h : s.node? p.place ≠ some .directory)
    (content : ByteArray) : ∃ s', s.write p content = .ok s' :=
  ⟨_, write_eq_ok_iff.2 ⟨p.place, locates_of_directory hlimits hp hbefore, h, hslash, rfl⟩⟩

/-- Where nothing is in the way of a file, it is removed or missing. -/
theorem remove_of_admits (hp : p.LeadsOn before name) (hslash : p.endsWithSlash = false)
    (h : s.Admits p.place) :
    s.remove p = .error .notFound ∨ ∃ s', s.remove p = .ok s' := by
  obtain ⟨hclear, hnode⟩ := h
  rw [hp.dropLast_place] at hclear
  rcases hclear.node?_eq with hbefore | hmissing
  · have hlocates := locates_of_directory hlimits hp hbefore
    cases hold : s.node? p.place with
    | none =>
      left
      unfold remove
      rw [hlocates.target_eq, node?_eq_none_iff.1 hold]
      rfl
    | some node =>
      cases node with
      | directory => exact absurd hold hnode
      | file content =>
        exact .inr ⟨_, remove_eq_ok_iff.2 ⟨p.place, content, hlocates, hold, hslash, rfl⟩⟩
  · left
    unfold remove
    rw [target_of_clear hlimits hp hclear hmissing]
    rfl

theorem remove_of_not_admits (hp : p.LeadsOn before name) (h : ¬ s.Admits p.place) :
    ∃ e, e ≠ .notFound ∧ s.remove p = .error e := by
  unfold remove
  by_cases hclear : s.Clear (placeOf before)
  · have hnode := node?_eq_directory_of_not_admits (hp.dropLast_place ▸ hclear) h
    have hbefore := node?_eq_directory_of_append_singleton (hp.place_eq ▸ hnode)
    obtain ⟨entries, hentries⟩ := FileTree.node?_eq_directory_iff.1 hnode
    rw [(locates_of_directory hlimits hp hbefore).target_eq, hentries]
    exact ⟨.isADirectory, nofun, rfl⟩
  · rw [target_of_not_clear hlimits hp hclear]
    exact ⟨.notADirectory, nofun, rfl⟩

/-! ## Making directories -/

/-- A directory is not made where the one around it is missing. -/
theorem ensureDirectory_of_parent_missing (hp : p.LeadsOn before name)
    (hclear : s.Clear (placeOf before)) (h : s.node? (placeOf before) = none) :
    s.ensureDirectory p = (s, .error .notFound) := by
  have hmake : s.makeDirectory p = .error .notFound := by
    unfold makeDirectory
    rw [target_of_clear hlimits hp hclear h]
    rfl
  have hnot : ¬ s.isDirectory p = true := by
    rw [isDirectory_iff_node? hlimits hp, hp.place_eq]
    intro hdirectory
    simp [node?_of_isPrefix_directory hdirectory (List.prefix_append _ [name])] at h
  unfold ensureDirectory
  rw [hmake]
  exact if_neg hnot

/-- A directory is not made at a file or below one. -/
theorem ensureDirectory_of_not_clear (hp : p.LeadsOn before name) (h : ¬ s.Clear p.place) :
    ∃ e, e ≠ .notFound ∧ s.ensureDirectory p = (s, .error e) := by
  have hnot : ¬ s.isDirectory p = true := by
    rw [isDirectory_iff_node? hlimits hp]
    exact fun hdirectory => h (clear_of_directory hdirectory)
  have hmake : ∃ e, e ≠ .notFound ∧ s.makeDirectory p = .error e := by
    unfold makeDirectory
    by_cases hclear : s.Clear (placeOf before)
    · rw [hp.place_eq] at h
      obtain ⟨content, hnode⟩ := exists_file_of_not_clear hclear h
      have hparent := node?_eq_directory_of_append_singleton hnode
      rw [(locates_of_directory hlimits hp hparent).target_eq, hp.place_eq,
        node?_eq_file_iff.1 hnode]
      exact ⟨.alreadyExists, nofun, rfl⟩
    · rw [target_of_not_clear hlimits hp hclear]
      exact ⟨.notADirectory, nofun, rfl⟩
  obtain ⟨e, hne, hmake⟩ := hmake
  refine ⟨e, hne, ?_⟩
  unfold ensureDirectory
  rw [hmake]
  exact if_neg hnot

/-- A directory is made in one that is there, unless it is there already. -/
theorem ensureDirectory_of_directory (hp : p.LeadsOn before name) (hclear : s.Clear p.place)
    (hbefore : s.node? (placeOf before) = some .directory) :
    ∃ s', s.ensureDirectory p = (s', .ok ()) ∧ s.MadeTo s' p.place := by
  rcases hclear.node?_eq with hdirectory | hmissing
  · exact ⟨s, ensureDirectory_of_isDirectory ((isDirectory_iff_node? hlimits hp).2 hdirectory),
      madeTo_self hdirectory⟩
  · have hlocates := locates_of_directory hlimits hp hbefore
    have hmake : s.makeDirectory p = .ok (s.replace p.place (some .empty)) :=
      makeDirectory_eq_ok_iff.2 ⟨p.place, hlocates, hmissing, rfl⟩
    refine ⟨s.replace p.place (some .empty), by unfold ensureDirectory; rw [hmake], rfl, fun q => ?_⟩
    rw [hlocates.node?_replace (by simp [hmissing]) (by simp)]
    by_cases hq : q = p.place
    · simp [hq, FileTree.empty, FileTree.node]
    · rw [if_neg hq]
      split
      · next hway =>
        rw [hp.place_eq] at hway hq
        exact node?_of_isPrefix_directory hbefore
          ((List.prefix_concat_iff.1 hway).resolve_left hq)
      · rfl

/-- The directories on a clear way are made from the outside in. -/
theorem ensureDirectories_of_clear {ps : List Path}
    (hps : ps.map Path.names = (Path.beginnings names).reverse)
    (hordinary : ∀ q ∈ ps, q.IsOrdinary) (hclear : s.Clear (placeOf names)) :
    ∃ s', s.ensureDirectories ps = (s', .ok ()) ∧ s.MadeTo s' (placeOf names) := by
  induction names using List.reverseRecOn generalizing ps with
  | nil =>
    obtain rfl : ps = [] := by simpa [Path.beginnings, Path.endsInName] using hps
    exact ⟨s, rfl, madeTo_self (hclear.node?_eq.resolve_right (by simp [placeOf, node?]))⟩
  | append_singleton names name ih =>
    by_cases hdot : name = "."
    · subst hdot
      rw [Path.beginnings_append_dot] at hps
      rw [Path.placeOf_append_dot] at hclear ⊢
      exact ih hps hordinary hclear
    rw [Path.beginnings_append_singleton hdot, List.reverse_concat] at hps
    obtain ⟨p, outer, rfl, hnames, houter⟩ := List.map_eq_cons_iff.1 hps
    have hp : p.LeadsOn names name := ⟨hordinary p List.mem_cons_self, hnames, hdot⟩
    rw [show placeOf (names ++ [name]) = p.place by rw [Path.place, hnames]] at hclear ⊢
    have hbefore : placeOf names <+: p.place := by
      rw [hp.place_eq]
      exact List.prefix_append _ _
    unfold ensureDirectories
    rcases (hclear.of_isPrefix hbefore).node?_eq with hdirectory | hmissing
    · obtain ⟨s', hensure, hmade⟩ := ensureDirectory_of_directory hlimits hp hclear hdirectory
      exact ⟨s', by rw [hensure], hmade⟩
    · -- the directory around is missing: it is made first, and the way stays clear
      obtain ⟨s₁, houter, hmade₁⟩ := ih houter
        (fun q hq => hordinary q (List.mem_cons_of_mem _ hq)) (hclear.of_isPrefix hbefore)
      obtain ⟨s₂, hensure, hmade₂⟩ := ensureDirectory_of_directory (hmade₁.limits.trans hlimits) hp
        (hmade₁.clear hclear) hmade₁.node?_self
      refine ⟨s₂, ?_, hmade₁.trans hbefore hmade₂⟩
      rw [ensureDirectory_of_parent_missing hlimits hp (hclear.of_isPrefix hbefore) hmissing, houter]
      exact hensure

/-- Where the way is not clear, no directory is made. -/
theorem ensureDirectories_of_not_clear (hp : p.LeadsOn before name) (h : ¬ s.Clear p.place)
    (outer : List Path) : ∃ e, s.ensureDirectories (p :: outer) = (s, .error e) := by
  obtain ⟨e, hne, hensure⟩ := ensureDirectory_of_not_clear hlimits hp h
  refine ⟨e, ?_⟩
  unfold ensureDirectories
  rw [hensure]
  cases e <;> first | rfl | exact absurd rfl hne

theorem makeDirectories_of_clear (hp : p.LeadsOn before name) (hclear : s.Clear p.place) :
    ∃ s', s.makeDirectories p = (s', .ok ()) ∧ s.MadeTo s' p.place := by
  unfold makeDirectories
  rw [if_neg hp.text_ne]
  refine ensureDirectories_of_clear hlimits ?_ ?_ hclear
  · have hwaypoints := Path.map_names_waypoints hp.isOrdinary.dot_not_mem
    rw [hp.names_eq, Path.beginnings_append_singleton hp.ne_dot] at hwaypoints ⊢
    rw [List.map_cons, List.map_reverse, List.map_dropLast, hwaypoints, hp.names_eq]
    simp
  · intro q hq
    rcases List.mem_cons.1 hq with rfl | hq
    · exact hp.isOrdinary
    · exact hp.isOrdinary.of_mem_waypoints (List.dropLast_subset _ (List.mem_reverse.1 hq))

theorem makeDirectories_of_not_clear (hp : p.LeadsOn before name) (h : ¬ s.Clear p.place) :
    ∃ e, s.makeDirectories p = (s, .error e) := by
  unfold makeDirectories
  rw [if_neg hp.text_ne]
  exact ensureDirectories_of_not_clear hlimits hp h _

end

end MetadataArchive.FileSystem
