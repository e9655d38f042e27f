import MetadataArchive.Proofs.Files.Clear

/-!
# What looking tells of changing

Looking at a path and removing the file there follow the same names, so a file that was found by
looking can be removed and written. Where looking finds nothing, removing fails as well, and either
both say that nothing is there or both have another cause.
-/

namespace MetadataArchive

/-- A path without names consists of slashes. -/
theorem Path.endsWithSlash_of_names_eq_nil {p : Path} (htext : p.text ≠ "")
    (hnames : p.names = []) : p.endsWithSlash = true := by
  have hslash : ∀ c ∈ p.text.toList, c = '/' := by
    intro c hc
    by_contra hne
    obtain ⟨name, hname, -⟩ := exists_mem_names hc hne
    simp [hnames] at hname
  have hlast : p.text.toList ≠ [] := by simpa using htext
  unfold endsWithSlash
  rw [List.getLast?_eq_some_getLast hlast, hslash _ (List.getLast_mem hlast)]
  rfl

namespace FileSystem

variable {s : FileSystem} {p q : Path} {l : Location} {names : List String} {name : String}
  {content : ByteArray} {e : FileError}

/-! ## Why nothing is found -/

theorem find_of_checkPath_eq_error (h : s.checkPath p = .error e) : s.find p = .error e := by
  unfold find
  rw [h]
  rfl

theorem find_of_text_eq (hpath : s.checkPath p = .ok ()) (htext : p.text = "") :
    s.find p = .error .notFound := by
  unfold find
  rw [hpath, if_pos htext]
  rfl

section

variable (hpath : s.checkPath p = .ok ()) (htext : p.text ≠ "")

include hpath htext

theorem find_of_resolve_eq_error (h : s.resolve p.names = .error e) : s.find p = .error e := by
  unfold find
  rw [hpath, if_neg htext, resolve_eq_error_iff.1 h]
  rfl

/-- Where names lead somewhere, something is found, unless it is a file and a slash follows. -/
theorem find_of_resolve_eq_ok (h : s.resolve p.names = .ok l) :
    (∃ t, s.find p = .ok t) ∨
      s.find p = .error .notADirectory ∧ p.endsWithSlash = true ∧
        ∃ content, s.node? l = some (.file content) := by
  obtain ⟨w, hfollow, rfl, hat⟩ := resolve_eq_ok_iff.1 h
  have hnode := (leads_of_follow hfollow).node?_location
  unfold find
  rw [hpath, if_neg htext, hfollow]
  simp only [bind, Except.bind]
  cases hreached : s.reached w with
  | directory entries => exact .inl ⟨_, rfl⟩
  | file content =>
    rw [hreached] at hnode
    by_cases hslash : p.endsWithSlash = true
    · exact .inr ⟨if_pos hslash, hslash, content, hnode⟩
    · exact .inl ⟨_, if_neg hslash⟩

end

/-! ## Files that are found -/

/-- Names that lead to a file end with the name of its entry. -/
theorem locates_of_resolve (hpath : s.checkPath p = .ok ()) (hnames : p.names ≠ [])
    (h : s.resolve p.names = .ok l) (hnode : s.node? l ≠ some .directory) : s.Locates p l := by
  obtain ⟨names, name, hlast⟩ := (List.eq_nil_or_concat' p.names).resolve_left hnames
  rw [hlast, resolve_append_singleton_eq_ok_iff] at h
  obtain ⟨m, hbefore, hstep⟩ := h
  obtain ⟨hdirectory, hname⟩ := stepPlace_eq_ok_iff.1 hstep
  rcases hname with ⟨-, rfl⟩ | ⟨-, rfl⟩ | ⟨hdots, hsize, -, rfl⟩
  · exact absurd hdirectory hnode
  · -- what is around a directory is a directory
    exact absurd (node?_of_isPrefix_directory hdirectory (List.dropLast_prefix m)) hnode
  · exact .intro hpath hlast hdots hsize hbefore hdirectory

theorem locates_of_find_eq_file (h : s.find p = .ok (.file content)) :
    ∃ place, s.Locates p place ∧ s.node? place = some (.file content) ∧
      p.endsWithSlash = false := by
  obtain ⟨hpath, htext, l, hl, hat, hslash⟩ := find_eq_ok_iff.1 h
  have hnode : s.node? l = some (.file content) := node?_eq_file_iff.2 hat
  have hends : p.endsWithSlash = false := by
    rw [← Bool.not_eq_true]
    intro htrue
    cases hslash htrue
  have hnames : p.names ≠ [] := by
    intro hnil
    rw [Path.endsWithSlash_of_names_eq_nil htext hnil] at hends
    cases hends
  exact ⟨l, locates_of_resolve hpath hnames hl (by simp [hnode]), hnode, hends⟩

theorem remove_of_find_eq_file (h : s.find p = .ok (.file content)) :
    ∃ s', s.remove p = .ok s' := by
  obtain ⟨place, hlocates, hnode, hslash⟩ := locates_of_find_eq_file h
  exact ⟨_, remove_eq_ok_iff.2 ⟨place, content, hlocates, hnode, hslash, rfl⟩⟩

theorem write_of_find_eq_file (h : s.find p = .ok (.file content)) (new : ByteArray) :
    ∃ s', s.write p new = .ok s' := by
  obtain ⟨place, hlocates, hnode, hslash⟩ := locates_of_find_eq_file h
  exact ⟨_, write_eq_ok_iff.2 ⟨place, hlocates, by simp [hnode], hslash, rfl⟩⟩

/-! ## Nothing to remove -/

/-- Where names lead nowhere, there is nothing to remove. -/
theorem remove_of_resolve_eq_error (hpath : s.checkPath p = .ok ())
    (h : s.resolve p.names = .error e) : s.remove p = .error e := by
  rcases List.eq_nil_or_concat' p.names with hnil | ⟨names, name, hnames⟩
  · rw [hnil] at h
    cases h
  · have htarget := target_eq hpath hnames
    rw [hnames, resolve_append_singleton] at h
    unfold remove
    cases hl : s.resolve names with
    | error e' =>
      rw [hl] at h htarget
      rw [htarget]
      cases h
      rfl
    | ok m =>
      rw [hl] at h htarget
      rw [htarget]
      change s.stepPlace m name = .error e at h
      simp only [bind, Except.bind]
      unfold stepPlace at h
      by_cases hdirectory : s.node? m = some .directory
      · rw [if_pos hdirectory] at h ⊢
        by_cases hdots : name = "." ∨ name = ".."
        · rcases hdots with rfl | rfl <;> simp at h
        · rw [not_or] at hdots
          by_cases hlong : FileLimits.exceeds name s.limits.nameSize = true
          · simpa [hdots, hlong] using h
          · by_cases hthere : (s.node? (m ++ [name])).isSome = true
            · simp [hdots, hlong, hthere] at h
            · have hnone : s.top.at? (m ++ [name]) = none := by
                simpa [node?_eq_none_iff] using hthere
              simpa [hdots, hlong, hthere, hnone] using h
      · rw [if_neg hdirectory] at h ⊢
        cases h
        rfl

/-- A file is not removed if a slash follows its name. -/
theorem remove_of_endsWithSlash (hp : s.Locates p l) (hnode : s.node? l = some (.file content))
    (hslash : p.endsWithSlash = true) : s.remove p = .error .notADirectory := by
  unfold remove
  rw [hp.target_eq, node?_eq_file_iff.1 hnode]
  exact if_pos hslash

/-- Where nothing is found, nothing is removed, and only what is not there is not found there. -/
theorem remove_of_find_eq_error (h : s.find p = .error e) :
    ∃ e', s.remove p = .error e' ∧ (e' = .notFound ↔ e = .notFound) := by
  cases hpath : s.checkPath p with
  | error e' =>
    rw [find_of_checkPath_eq_error hpath] at h
    refine ⟨e', ?_, by rw [Except.error.inj h]⟩
    unfold remove
    rw [target_of_checkPath_eq_error hpath]
    rfl
  | ok =>
    by_cases htext : p.text = ""
    · rw [find_of_text_eq hpath htext] at h
      refine ⟨.notFound, ?_, by rw [Except.error.inj h]⟩
      have hnames : p.names = [] := by simp [Path.names, htext, Path.splitSlashes]
      have hrooted : p.isRooted = false := by simp [Path.isRooted, htext]
      unfold remove
      rw [target_of_names_eq_nil hpath hnames, hrooted]
      rfl
    cases hl : s.resolve p.names with
    | error e' =>
      rw [find_of_resolve_eq_error hpath htext hl] at h
      exact ⟨e', remove_of_resolve_eq_error hpath hl, by rw [Except.error.inj h]⟩
    | ok l =>
      rcases find_of_resolve_eq_ok hpath htext hl with ⟨t, ht⟩ | ⟨herror, hslash, content, hnode⟩
      · rw [h] at ht
        cases ht
      · rw [herror] at h
        obtain rfl := Except.error.inj h
        by_cases hnames : p.names = []
        · -- the root is no entry that can be removed
          refine ⟨.isADirectory, ?_, by simp only [reduceCtorEq]⟩
          unfold remove
          rw [target_of_names_eq_nil hpath hnames, Path.isRooted_of_names_eq_nil htext hnames]
          rfl
        · have hlocates := locates_of_resolve hpath hnames hl (by simp [hnode])
          exact ⟨.notADirectory, remove_of_endsWithSlash hlocates hnode hslash, .rfl⟩

/-! ## Directories on the way -/

theorem checkPath_of_isPrefix (h : s.checkPath p = .ok ()) (hq : q.text.toList <+: p.text.toList) :
    s.checkPath q = .ok () := by
  obtain ⟨rest, hrest⟩ := hq
  have htext : p.text = q.text ++ String.ofList rest := by
    apply String.toList_injective
    simp [hrest]
  rw [checkPath_eq_ok_iff] at h ⊢
  obtain ⟨hnul, hsize⟩ := h
  refine ⟨fun hmem => hnul (hrest ▸ List.mem_append_left _ hmem), ?_⟩
  cases hlimit : s.limits.pathSize with
  | none => rfl
  | some size =>
    simp only [hlimit, htext, FileLimits.exceeds, String.utf8ByteSize_append,
      decide_eq_false_iff_not] at hsize ⊢
    omega

/-- Before the last of the names that lead somewhere, there are directories. -/
theorem exists_directory_of_resolve {rest : List String} (h : s.resolve (names ++ rest) = .ok l)
    (hrest : rest ≠ []) : ∃ m, s.resolve names = .ok m ∧ s.node? m = some .directory := by
  induction rest using List.reverseRecOn generalizing l with
  | nil => exact absurd rfl hrest
  | append_singleton rest name ih =>
    rw [← List.append_assoc] at h
    obtain ⟨m, hbefore, hstep⟩ := resolve_append_singleton_eq_ok_iff.1 h
    by_cases hnil : rest = []
    · rw [hnil, List.append_nil] at hbefore
      exact ⟨m, hbefore, (stepPlace_eq_ok_iff.1 hstep).1⟩
    · exact ih hbefore hnil

end FileSystem

/-- The path to the directory around stops before the last name. -/
theorem Path.IsOrdinary.names_parent? {p q : Path} (hp : p.IsOrdinary) (hq : p.parent? = some q) :
    ∃ rest, rest ≠ [] ∧ p.names = q.names ++ rest := by
  have hparent : p.parent?.map names = (beginnings p.names).dropLast.getLast? := by
    unfold parent?
    rw [← List.getLast?_map, List.map_dropLast, map_names_waypoints hp.dot_not_mem]
  rw [hq] at hparent
  rcases beginnings_eq p.names with ⟨-, hnil⟩ | ⟨m, last, -, -, hbeginnings⟩
  · simp [hnil] at hparent
  · have hwhole : m ++ [last] ∈ beginnings p.names := by simp [hbeginnings]
    obtain ⟨after, hafter⟩ := (List.mem_inits _ _).1 (List.mem_filter.1 hwhole).1
    rw [hbeginnings, List.dropLast_concat] at hparent
    obtain ⟨between, hbetween⟩ :=
      (List.mem_inits _ _).1 (List.mem_filter.1 (List.mem_of_getLast? hparent.symm)).1
    exact ⟨between ++ [last] ++ after, by simp, by simp [← hafter, ← hbetween]⟩

namespace FileSystem

/-- Where a path of ordinary components leads somewhere, the directory around is there. -/
theorem isDirectory_parent {s : FileSystem} {p q : Path} (hp : p.IsOrdinary)
    (h : s.contains p = true) (hq : p.parent? = some q) : s.isDirectory q = true := by
  obtain ⟨t, ht⟩ := contains_eq_true_iff.1 h
  obtain ⟨hpath, -, l, hl, -⟩ := find_eq_ok_iff.1 ht
  have hmem : q ∈ p.waypoints := List.dropLast_subset _ (List.mem_of_getLast? hq)
  obtain ⟨rest, hrest, hnames⟩ := hp.names_parent? hq
  rw [hnames] at hl
  have htext : q.text ≠ "" := by
    rcases hp.parent?_eq with ⟨-, hnone⟩ | ⟨q', m, last, hq', hleads, -⟩
    · rw [hnone] at hq
      cases hq
    · rw [hq'] at hq
      exact Option.some.inj hq ▸ hleads.text_ne
  exact isDirectory_iff.2 ⟨checkPath_of_isPrefix hpath (Path.isPrefix_of_mem_waypoints hmem), htext,
    exists_directory_of_resolve hl hrest⟩

/-- Where nothing limits paths, nothing is found at an ordinary path because of a file on the way, or
else because it is not there. -/
theorem find_eq_notFound_iff {s : FileSystem} {p : Path} (hlimits : s.limits = .unlimited)
    (htop : s.node? [] = some .directory) (hp : p.IsOrdinary) :
    s.find p = .error .notFound ↔ s.contains p = false ∧ s.Clear p.place := by
  have hpath : s.checkPath p = .ok () := checkPath_of_isOrdinary hlimits hp
  have hdots := hp.dots_not_mem
  constructor
  · intro h
    refine ⟨by simp [contains, h], ?_⟩
    by_contra hclear
    have htext : p.text ≠ "" := by
      intro htext
      have hplace : p.place = [] := by
        simp [Path.place, Path.placeOf, Path.names, htext, Path.splitSlashes]
      exact hclear (hplace ▸ clear_of_directory htop)
    rcases resolve_of_not_clear hlimits hdots hclear with ⟨hl, -⟩ | hl
    · rcases find_of_resolve_eq_ok hpath htext hl with ⟨t, ht⟩ | ⟨herror, -⟩
      · simp [h] at ht
      · simp [h] at herror
    · have herror := find_of_resolve_eq_error hpath htext hl
      simp [h] at herror
  · rintro ⟨hcontains, hclear⟩
    by_cases htext : p.text = ""
    · exact find_of_text_eq hpath htext
    rcases hclear.node?_eq with hdirectory | hmissing
    · rcases find_of_resolve_eq_ok hpath htext (resolve_of_directory hlimits hdots hdirectory) with
        hfound | ⟨-, -, content, hfile⟩
      · simp [contains_eq_true_iff.2 hfound] at hcontains
      · rw [show s.node? (Path.placeOf p.names) = _ from hdirectory] at hfile
        cases hfile
    · exact find_of_resolve_eq_error hpath htext (resolve_of_clear hlimits hdots hclear hmissing)

end FileSystem

end MetadataArchive
