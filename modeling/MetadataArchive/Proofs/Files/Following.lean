import MetadataArchive.Files.System
import MetadataArchive.Proofs.Files.Node
import MetadataArchive.Proofs.Files.Path

/-!
# Following paths from place to place

Following a path keeps what is passed on the way. Where it leads can be told without that, from what
stands at the places passed: `FileSystem.resolve` goes from place to place. What operations on a
path find and change is said here in terms of the place to which the path leads. Directories that
were passed are passed again after a change at a place where there is no directory.
-/

namespace MetadataArchive

@[simp]
theorem Trail.location_cons (name : String) (t : FileTree) (w : Trail) :
    Trail.location ((name, t) :: w) = Trail.location w ++ [name] := by
  simp [location]

theorem Trail.location_tail (w : Trail) : Trail.location w.tail = (Trail.location w).dropLast := by
  cases w with
  | nil => rfl
  | cons e w => simp [location]

namespace FileSystem

variable {s s' : FileSystem} {w w' : Trail} {p : Path} {l place : Location} {name : String}
  {names : List String}

/-- What stands at a place. -/
def node? (s : FileSystem) (l : Location) : Option FileNode :=
  s.top.node? l

theorem node?_eq_none_iff : s.node? l = none ↔ s.top.at? l = none := by
  simp [node?, FileTree.node?]

theorem node?_eq_file_iff {content : ByteArray} :
    s.node? l = some (.file content) ↔ s.top.at? l = some (.file content) := by
  unfold node? FileTree.node?
  cases s.top.at? l with
  | none => simp
  | some t => cases t <;> simp [FileTree.node]

/-- A way on which each name was found in the directory reached before it. -/
def Leads (s : FileSystem) : Trail → Prop
  | [] => True
  | (name, t) :: w =>
    s.Leads w ∧ ∃ entries, s.reached w = .directory entries ∧ entries.lookup name = some t

/-- The place where one more name leads. -/
def stepPlace (s : FileSystem) (l : Location) (name : String) : Except FileError Location :=
  if s.node? l = some .directory then
    if name = "." then .ok l
    else if name = ".." then .ok l.dropLast
    else if FileLimits.exceeds name s.limits.nameSize then .error .nameTooLong
    else if (s.node? (l ++ [name])).isSome then .ok (l ++ [name])
    else .error .notFound
  else
    .error .notADirectory

/-- The place where names lead from the top. -/
def resolve (s : FileSystem) (names : List String) : Except FileError Location :=
  names.foldlM s.stepPlace []

/-! ## Ways and places -/

theorem Leads.at?_location (h : s.Leads w) : s.top.at? w.location = some (s.reached w) := by
  induction w with
  | nil => cases hs : s.top <;> simp [Trail.location, reached, FileTree.at?, hs]
  | cons e w ih =>
    obtain ⟨name, t⟩ := e
    obtain ⟨hw, entries, hreached, hlookup⟩ := h
    rw [Trail.location_cons, FileTree.at?_append, ih hw, hreached]
    simp [FileTree.at?, hlookup, reached]

theorem Leads.node?_location (h : s.Leads w) : s.node? w.location = some (s.reached w).node := by
  simp [node?, FileTree.node?, h.at?_location]

theorem Leads.at?_location_append (h : s.Leads w) {entries : List (String × FileTree)}
    (hreached : s.reached w = .directory entries) (name : String) :
    s.top.at? (w.location ++ [name]) = entries.lookup name := by
  rw [FileTree.at?_append, h.at?_location, hreached]
  cases hlookup : entries.lookup name <;> simp [FileTree.at?, hlookup]

theorem Leads.tail (h : s.Leads w) : s.Leads w.tail := by
  cases w with
  | nil => trivial
  | cons e w => exact h.1

/-- One more name leads on, to the place that can be told from the places alone. -/
theorem Leads.step (h : s.Leads w) (name : String) :
    (∀ w', s.step w name = .ok w' → s.Leads w') ∧
      (s.step w name).map Trail.location = s.stepPlace w.location name := by
  unfold FileSystem.step stepPlace
  rw [h.node?_location]
  cases hreached : s.reached w with
  | file content => exact ⟨fun _ h => (nomatch h), rfl⟩
  | directory entries =>
    have hentry := h.at?_location_append hreached name
    rw [if_pos (show some (FileTree.directory entries).node = some .directory from rfl)]
    by_cases hdot : name = "."
    · simp [hdot, h, Except.map]
    by_cases hdots : name = ".."
    · simp [hdots, h.tail, Except.map, Trail.location_tail]
    by_cases hlong : FileLimits.exceeds name s.limits.nameSize = true
    · simp [hdot, hdots, hlong, entry?, Except.map]
    · cases hlookup : entries.lookup name with
      | none => simp [hdot, hdots, hlong, entry?, hlookup, node?, FileTree.node?, hentry, Except.map]
      | some t =>
        have hleads : s.Leads ((name, t) :: w) := ⟨h, entries, hreached, hlookup⟩
        simp [hdot, hdots, hlong, entry?, hlookup, node?, FileTree.node?, hentry, Except.map, hleads]

theorem Leads.foldlM_step (h : s.Leads w) (names : List String) :
    (∀ w', names.foldlM s.step w = .ok w' → s.Leads w') ∧
      (names.foldlM s.step w).map Trail.location = names.foldlM s.stepPlace w.location := by
  induction names generalizing w with
  | nil =>
    refine ⟨fun w' hw' => ?_, rfl⟩
    cases hw'
    exact h
  | cons name names ih =>
    obtain ⟨hleads, hplace⟩ := h.step name
    rw [List.foldlM_cons, List.foldlM_cons, ← hplace]
    cases hstep : s.step w name with
    | error e => exact ⟨fun _ h => (nomatch h), rfl⟩
    | ok w' => exact ih (hleads w' hstep)

theorem leads_of_follow (h : s.follow names = .ok w) : s.Leads w :=
  (Leads.foldlM_step (w := []) trivial names).1 w h

theorem map_location_follow (s : FileSystem) (names : List String) :
    (s.follow names).map Trail.location = s.resolve names :=
  (Leads.foldlM_step (s := s) (w := []) trivial names).2

theorem resolve_append_singleton (s : FileSystem) (names : List String) (name : String) :
    s.resolve (names ++ [name]) = s.resolve names >>= fun l => s.stepPlace l name := by
  simp [resolve, List.foldlM_append]

/-- From what places one more name leads on, and where to. -/
theorem stepPlace_eq_ok_iff {m : Location} : s.stepPlace l name = .ok m ↔
    s.node? l = some .directory ∧
      (name = "." ∧ m = l ∨ name = ".." ∧ m = l.dropLast ∨
        ¬ (name = "." ∨ name = "..") ∧ FileLimits.exceeds name s.limits.nameSize = false ∧
          (s.node? m).isSome = true ∧ m = l ++ [name]) := by
  unfold stepPlace
  by_cases hdirectory : s.node? l = some .directory
  · rw [if_pos hdirectory, and_iff_right hdirectory]
    by_cases hdot : name = "."
    · rw [if_pos hdot, Except.ok.injEq, @eq_comm _ l m]
      simp [hdot]
    by_cases hdots : name = ".."
    · rw [if_neg hdot, if_pos hdots, Except.ok.injEq, @eq_comm _ l.dropLast m]
      simp [hdots]
    by_cases hlong : FileLimits.exceeds name s.limits.nameSize = true
    · simp [hdot, hdots, hlong]
    by_cases hthere : (s.node? (l ++ [name])).isSome = true
    · rw [if_neg hdot, if_neg hdots, if_neg hlong, if_pos hthere, Except.ok.injEq, @eq_comm _ _ m]
      simp only [hdot, hdots, hlong, false_and, or_self, not_false_eq_true, true_and, false_or,
        iff_and_self]
      rintro rfl
      exact hthere
    · simp only [hdot, hdots, hlong, hthere, if_false, false_and, false_or, reduceCtorEq, false_iff]
      rintro ⟨-, -, hm, rfl⟩
      exact hthere hm
  · simp [hdirectory]

theorem resolve_append_singleton_eq_ok_iff {m : Location} :
    s.resolve (names ++ [name]) = .ok m ↔
      ∃ l, s.resolve names = .ok l ∧ s.stepPlace l name = .ok m := by
  rw [resolve_append_singleton]
  cases s.resolve names <;> simp [bind, Except.bind]

/-- Where names lead, and what is there. -/
theorem resolve_eq_ok_iff : s.resolve names = .ok l ↔
    ∃ w, s.follow names = .ok w ∧ w.location = l ∧ s.top.at? l = some (s.reached w) := by
  rw [← map_location_follow]
  cases hfollow : s.follow names with
  | error e => simp [Except.map]
  | ok w =>
    have hat := (leads_of_follow hfollow).at?_location
    simp only [Except.map, Except.ok.injEq, exists_eq_left']
    constructor
    · rintro rfl
      exact ⟨rfl, hat⟩
    · exact And.left

theorem resolve_eq_error_iff {e : FileError} :
    s.resolve names = .error e ↔ s.follow names = .error e := by
  rw [← map_location_follow]
  cases s.follow names <;> simp [Except.map]

/-! ## What operations find -/

theorem checkPath_eq_ok_iff : s.checkPath p = .ok () ↔
    '\x00' ∉ p.text.toList ∧ FileLimits.exceeds p.text s.limits.pathSize = false := by
  unfold checkPath
  by_cases hnul : '\x00' ∈ p.text.toList
  · simp [hnul]
  · by_cases hlong : FileLimits.exceeds p.text s.limits.pathSize = true
    · simp [hnul, hlong]
    · simp [hnul, hlong]

theorem target_of_checkPath_eq_error {e : FileError} (h : s.checkPath p = .error e) :
    s.target p = .error e := by
  unfold target
  rw [h]
  rfl

theorem target_of_names_eq_nil (hpath : s.checkPath p = .ok ()) (hnames : p.names = []) :
    s.target p = if p.isRooted then .ok .whole else .error .notFound := by
  unfold target
  rw [hpath, hnames]
  rfl

/-- What the last name of a path refers to. -/
theorem target_eq (hpath : s.checkPath p = .ok ()) (hnames : p.names = names ++ [name]) :
    s.target p = s.resolve names >>= fun l =>
      if s.node? l = some .directory then
        if name = "." ∨ name = ".." then .ok .whole
        else if FileLimits.exceeds name s.limits.nameSize then .error .nameTooLong
        else .ok (.entry (l ++ [name]) (s.top.at? (l ++ [name])))
      else .error .notADirectory := by
  unfold target
  rw [hpath, hnames, List.getLast?_concat, List.dropLast_concat]
  cases hfollow : s.follow names with
  | error e =>
    rw [resolve_eq_error_iff.2 hfollow]
    rfl
  | ok w =>
    have hleads := leads_of_follow hfollow
    rw [resolve_eq_ok_iff.2 ⟨w, hfollow, rfl, hleads.at?_location⟩]
    simp only [bind, Except.bind, hleads.node?_location]
    cases hreached : s.reached w with
    | file content => simp [FileTree.node]
    | directory entries =>
      rw [hleads.at?_location_append hreached]
      simp only [FileTree.node, entry?]
      by_cases hdots : name = "." ∨ name = ".."
      · simp [hdots]
      · by_cases hlong : FileLimits.exceeds name s.limits.nameSize = true
        · simp [hdots, hlong]
        · simp [hdots, hlong, pure, Except.pure]

/-- What a path leads to. -/
theorem find_eq_ok_iff {t : FileTree} : s.find p = .ok t ↔
    s.checkPath p = .ok () ∧ p.text ≠ "" ∧ ∃ l, s.resolve p.names = .ok l ∧ s.top.at? l = some t ∧
      (p.endsWithSlash = true → t.node = .directory) := by
  unfold find
  cases hpath : s.checkPath p with
  | error e => simp [bind, Except.bind]
  | ok =>
    by_cases htext : p.text = ""
    · simp [htext, bind, Except.bind]
    simp only [bind, Except.bind, htext, if_false, resolve_eq_ok_iff]
    cases hfollow : s.follow p.names with
    | error e => simp
    | ok w =>
      have hat := (leads_of_follow hfollow).at?_location
      simp only [Except.ok.injEq, exists_eq_left', and_assoc, hat, true_and, ne_eq, htext,
        not_false_eq_true, Option.some.injEq]
      cases s.reached w with
      | file content =>
        by_cases hslash : p.endsWithSlash = true
        · -- a path to a file does not end with a slash
          simp only [hslash, if_true, reduceCtorEq, forall_true_left, false_iff, not_and]
          rintro rfl
          simp [FileTree.node]
        · simp [hslash]
      | directory entries =>
        simp only [Except.ok.injEq, iff_self_and]
        rintro rfl _
        rfl

theorem isDirectory_iff : s.isDirectory p = true ↔
    s.checkPath p = .ok () ∧ p.text ≠ "" ∧ ∃ l, s.resolve p.names = .ok l ∧
      s.node? l = some .directory := by
  have hfind : s.isDirectory p = true ↔ ∃ entries, s.find p = .ok (.directory entries) := by
    unfold isDirectory
    cases s.find p with
    | error e => simp
    | ok t => cases t <;> simp
  simp only [hfind, find_eq_ok_iff, node?, FileTree.node?_eq_directory_iff]
  constructor
  · rintro ⟨entries, hpath, htext, l, hl, hat, -⟩
    exact ⟨hpath, htext, l, hl, entries, hat⟩
  · rintro ⟨hpath, htext, l, hl, entries, hat⟩
    exact ⟨entries, hpath, htext, l, hl, hat, fun _ => rfl⟩

theorem contains_eq_true_iff : s.contains p = true ↔ ∃ t, s.find p = .ok t := by
  unfold contains
  cases s.find p <;> simp

/-! ## Entries -/

/-- A path whose last name stands for an entry, be it there or not, of a directory that is there. -/
inductive Locates (s : FileSystem) (p : Path) : Location → Prop
  | intro {names : List String} {name : String} {l : Location} (hpath : s.checkPath p = .ok ())
      (hnames : p.names = names ++ [name]) (hdots : ¬ (name = "." ∨ name = ".."))
      (hsize : FileLimits.exceeds name s.limits.nameSize = false) (hl : s.resolve names = .ok l)
      (hdirectory : s.node? l = some .directory) : Locates s p (l ++ [name])

theorem target_eq_entry_iff {found : Option FileTree} :
    s.target p = .ok (.entry place found) ↔ s.Locates p place ∧ found = s.top.at? place := by
  constructor
  · intro h
    cases hpath : s.checkPath p with
    | error e =>
      rw [target_of_checkPath_eq_error hpath] at h
      cases h
    | ok =>
      rcases List.eq_nil_or_concat' p.names with hnil | ⟨names, name, hnames⟩
      · rw [target_of_names_eq_nil hpath hnil] at h
        split at h <;> cases h
      · rw [target_eq hpath hnames] at h
        cases hl : s.resolve names with
        | error e =>
          rw [hl] at h
          cases h
        | ok l =>
          -- of all the checks the last name has to pass, none may have failed
          simp only [hl, bind, Except.bind] at h
          split at h
          · next hdirectory =>
            split at h
            · cases h
            · next hdots =>
              split at h
              · cases h
              · next hsize =>
                cases h
                exact ⟨.intro hpath hnames hdots (by simpa using hsize) hl hdirectory, rfl⟩
          · cases h
  · rintro ⟨hlocates, rfl⟩
    obtain ⟨hpath, hnames, hdots, hsize, hl, hdirectory⟩ := hlocates
    rw [target_eq hpath hnames, hl]
    simp [bind, Except.bind, hdirectory, hdots, hsize]

theorem Locates.target_eq (h : s.Locates p place) :
    s.target p = .ok (.entry place (s.top.at? place)) :=
  target_eq_entry_iff.2 ⟨h, rfl⟩

/-- The directory of an entry is there. -/
theorem Locates.exists_parent (h : s.Locates p place) :
    ∃ l name, place = l ++ [name] ∧ s.node? l = some .directory := by
  obtain ⟨-, -, -, -, -, hdirectory⟩ := h
  exact ⟨_, _, rfl, hdirectory⟩

/-- An operation that does nothing with a directory as such succeeds at an entry. -/
theorem target_bind_eq_ok_iff {f : Target → Except FileError FileSystem}
    (hwhole : ∀ s', f .whole ≠ .ok s') : s.target p >>= f = .ok s' ↔
      ∃ place, s.Locates p place ∧ f (.entry place (s.top.at? place)) = .ok s' := by
  constructor
  · intro h
    cases htarget : s.target p with
    | error e =>
      rw [htarget] at h
      cases h
    | ok target =>
      rw [htarget] at h
      cases target with
      | whole => exact absurd h (hwhole s')
      | entry place found =>
        obtain ⟨hp, rfl⟩ := target_eq_entry_iff.1 htarget
        exact ⟨place, hp, h⟩
  · rintro ⟨place, hp, h⟩
    rw [hp.target_eq]
    exact h

/-- A path to an entry leads there if the entry is there. -/
theorem Locates.resolve_eq (h : s.Locates p place) :
    s.resolve p.names = if (s.node? place).isSome then .ok place else .error .notFound := by
  obtain ⟨-, hnames, hdots, hsize, hl, hdirectory⟩ := h
  rw [not_or] at hdots
  rw [hnames, resolve_append_singleton, hl]
  simp [bind, Except.bind, stepPlace, hdirectory, hdots, hsize]

/-- What a path leads to, it refers to. -/
theorem target_of_contains (h : s.contains p = true) :
    s.target p = .ok .whole ∨ ∃ place t, s.target p = .ok (.entry place (some t)) := by
  obtain ⟨t, ht⟩ := contains_eq_true_iff.1 h
  obtain ⟨hpath, htext, l, hl, hat, -⟩ := find_eq_ok_iff.1 ht
  rcases List.eq_nil_or_concat' p.names with hnil | ⟨names, name, hnames⟩
  · rw [target_of_names_eq_nil hpath hnil, Path.isRooted_of_names_eq_nil htext hnil]
    exact .inl rfl
  · rw [hnames, resolve_append_singleton_eq_ok_iff] at hl
    obtain ⟨m, hbefore, hstep⟩ := hl
    obtain ⟨hdirectory, hname⟩ := stepPlace_eq_ok_iff.1 hstep
    rw [target_eq hpath hnames, hbefore]
    simp only [bind, Except.bind, if_pos hdirectory]
    -- the last name was followed, so that it passes all the checks
    rcases hname with ⟨hdot, -⟩ | ⟨hdots, -⟩ | ⟨hnot, hsize, -, rfl⟩
    · exact .inl (if_pos (.inl hdot))
    · exact .inl (if_pos (.inr hdots))
    · exact .inr ⟨m ++ [name], t, by simp [hnot, hsize, hat]⟩

end FileSystem

end MetadataArchive
