import MetadataArchive.Files.Tree
import MetadataArchive.Proofs.Files.Path

/-!
# Paths of ordinary components

A path of ordinary components does not lead back anywhere, so the place it leads to can be told from
its names: it is what they are without the dots among them. The same holds of all its beginnings, and
the path to the directory around leads to the place around.
-/

namespace MetadataArchive.Path

variable {p q : Path} {before : List String} {name : String}

/-- A name that something in a directory can have. -/
def IsOrdinaryName (name : String) : Prop :=
  name ≠ "." ∧ name ≠ ".." ∧ '\x00' ∉ name.toList

instance : DecidablePred IsOrdinaryName :=
  fun _ => inferInstanceAs (Decidable (_ ∧ _ ∧ _))

/-- A path whose components are the root, if it starts there, and ordinary names. -/
def IsOrdinary (p : Path) : Prop :=
  ∀ name ∈ p.components, name = "/" ∨ IsOrdinaryName name

instance (p : Path) : Decidable p.IsOrdinary :=
  inferInstanceAs (Decidable (∀ name ∈ _, _))

/-- A path after whose last component nothing is left: no slash and no dot. -/
def EndsInComponent (p : Path) : Prop :=
  p.endsWithSlash = false ∧ p.names.getLast? ≠ some "."

instance (p : Path) : Decidable p.EndsInComponent :=
  inferInstanceAs (Decidable (_ ∧ _))

/-- The place that names are if none of them leads back. Dots lead nowhere else. -/
def placeOf (names : List String) : Location :=
  names.filter fun name => name != "."

/-- The place that the names in a path are. -/
def place (p : Path) : Location :=
  placeOf p.names

theorem placeOf_append_dot (names : List String) : placeOf (names ++ ["."]) = placeOf names := by
  simp [placeOf]

theorem placeOf_append_singleton (hname : name ≠ ".") (names : List String) :
    placeOf (names ++ [name]) = placeOf names ++ [name] := by
  simp [placeOf, hname]

/-- Induction from the last name, for names none of which leads back: dots are passed over. -/
@[elab_as_elim]
theorem forwardInduction {motive : (names : List String) → ".." ∉ names → Prop}
    (nil : motive [] List.not_mem_nil)
    (dot : ∀ names h, motive names h → motive (names ++ ["."]) (by simpa using h))
    (name : ∀ names name h, name ≠ "." → (hdots : name ≠ "..") → motive names h →
      motive (names ++ [name]) (by simpa [Ne.symm hdots] using h))
    (names : List String) (h : ".." ∉ names) : motive names h := by
  induction names using List.reverseRecOn with
  | nil => exact nil
  | append_singleton names last ih =>
    have hbefore : ".." ∉ names := fun hmem => h (List.mem_append_left _ hmem)
    have hlast : last ≠ ".." := by
      rintro rfl
      exact h (by simp)
    by_cases hdot : last = "."
    · subst hdot
      exact dot names hbefore (ih hbefore)
    · exact name names last hbefore hdot hlast (ih hbefore)

/-! ## Ordinary paths -/

theorem mem_names_of_mem_components (h : name ∈ p.components) (hroot : name ≠ "/") :
    name ∈ p.names := by
  unfold components at h
  split at h
  · rcases List.mem_cons.1 h with rfl | h
    · exact absurd rfl hroot
    · exact (List.mem_filter.1 h).1
  · split at h
    · cases h
    · next first rest hnames =>
      rw [hnames]
      rcases List.mem_cons.1 h with rfl | h
      · exact List.mem_cons_self
      · exact List.mem_cons_of_mem _ (List.mem_filter.1 h).1

theorem mem_components_of_mem_names (h : name ∈ p.names) (hdot : name ≠ ".") :
    name ∈ p.components := by
  unfold components
  split
  · simp [h, hdot]
  · split
    · next hnil => simp [hnil] at h
    · next first rest hnames =>
      rw [hnames] at h
      rcases List.mem_cons.1 h with rfl | h
      · exact List.mem_cons_self
      · exact List.mem_cons_of_mem _ (by simp [h, hdot])

theorem ne_slash_of_mem_names (h : name ∈ p.names) : name ≠ "/" := by
  rintro rfl
  obtain ⟨part, hpart, hslash⟩ := List.mem_map.1 h
  have hnot := not_mem_of_mem_splitSlashes (List.mem_filter.1 hpart).1
  rw [show part = ['/'] by simpa using congrArg String.toList hslash] at hnot
  exact hnot (by simp)

theorem isOrdinary_iff : p.IsOrdinary ↔
    "." ∉ p.components ∧ ∀ name ∈ p.names, name ≠ "." → IsOrdinaryName name := by
  constructor
  · intro h
    refine ⟨fun hdot => ?_, fun name hname hne => ?_⟩
    · rcases h _ hdot with hroot | ⟨hne, -⟩
      · exact absurd hroot (by decide)
      · exact hne rfl
    · exact (h name (mem_components_of_mem_names hname hne)).resolve_left
        (ne_slash_of_mem_names hname)
  · rintro ⟨hdot, hnames⟩ name hname
    by_cases hroot : name = "/"
    · exact .inl hroot
    · refine .inr (hnames name (mem_names_of_mem_components hname hroot) ?_)
      rintro rfl
      exact hdot hname

theorem IsOrdinary.dot_not_mem (h : p.IsOrdinary) : "." ∉ p.components :=
  (isOrdinary_iff.1 h).1

theorem IsOrdinary.dots_not_mem (h : p.IsOrdinary) : ".." ∉ p.names :=
  fun hdots => ((isOrdinary_iff.1 h).2 _ hdots (by decide)).2.1 rfl

theorem IsOrdinary.nul_not_mem (h : p.IsOrdinary) : '\x00' ∉ p.text.toList := by
  intro hnul
  obtain ⟨name, hname, hmem⟩ := exists_mem_names hnul (by decide)
  have hne : name ≠ "." := by
    rintro rfl
    simp at hmem
  exact ((isOrdinary_iff.1 h).2 name hname hne).2.2 hmem

theorem IsOrdinary.of_mem_waypoints (h : p.IsOrdinary) (hq : q ∈ p.waypoints) : q.IsOrdinary := by
  obtain ⟨hdot, hnames⟩ := isOrdinary_iff.1 h
  have hmem : q.names ∈ beginnings p.names := map_names_waypoints hdot ▸ List.mem_map_of_mem hq
  have hway := (List.mem_inits _ _).1 (List.mem_filter.1 hmem).1
  exact isOrdinary_iff.2 ⟨dot_not_mem_components_of_mem_waypoints hdot hq,
    fun name hname => hnames name (hway.subset hname)⟩

/-! ## Paths to entries -/

/-- An ordinary path that ends in a name, or in a name and a slash. -/
structure LeadsOn (p : Path) (before : List String) (name : String) : Prop where
  isOrdinary : p.IsOrdinary
  names_eq : p.names = before ++ [name]
  ne_dot : name ≠ "."

theorem IsOrdinary.exists_leadsOn (h : p.IsOrdinary) (hend : p.EndsInComponent)
    (hne : p.names ≠ []) : ∃ before name, p.LeadsOn before name := by
  obtain ⟨before, name, hnames⟩ := (List.eq_nil_or_concat' p.names).resolve_left hne
  have hlast := hend.2
  rw [hnames, List.getLast?_concat] at hlast
  exact ⟨before, name, h, hnames, fun heq => hlast (congrArg some heq)⟩

theorem LeadsOn.place_eq (h : p.LeadsOn before name) : p.place = placeOf before ++ [name] := by
  rw [place, h.names_eq, placeOf_append_singleton h.ne_dot]

theorem LeadsOn.dropLast_place (h : p.LeadsOn before name) : p.place.dropLast = placeOf before := by
  rw [h.place_eq, List.dropLast_concat]

theorem LeadsOn.dots_not_mem_before (h : p.LeadsOn before name) : ".." ∉ before := by
  intro hdots
  apply h.isOrdinary.dots_not_mem
  rw [h.names_eq]
  exact List.mem_append_left _ hdots

theorem LeadsOn.text_ne (h : p.LeadsOn before name) : p.text ≠ "" :=
  text_ne_of_names_ne (by simp [h.names_eq])

/-- Names have the beginnings of those up to the last one that is more than a dot. -/
theorem beginnings_eq (l : List String) :
    placeOf l = [] ∧ beginnings l = [] ∨
      ∃ m last, last ≠ "." ∧ placeOf l = placeOf m ++ [last] ∧
        beginnings l = beginnings m ++ [m ++ [last]] := by
  induction l using List.reverseRecOn with
  | nil => exact .inl ⟨rfl, rfl⟩
  | append_singleton l name ih =>
    by_cases hdot : name = "."
    · rw [hdot, beginnings_append_dot, placeOf_append_dot]
      exact ih
    · exact .inr ⟨l, name, hdot, placeOf_append_singleton hdot l, beginnings_append_singleton hdot l⟩

/-- The path to the directory around leads to the place around, unless that is the top. -/
theorem IsOrdinary.parent?_eq (h : p.IsOrdinary) :
    p.place.dropLast = [] ∧ p.parent? = none ∨
      ∃ q m last, p.parent? = some q ∧ q.LeadsOn m last ∧ q.place = p.place.dropLast := by
  have hparent : p.parent?.map names = (beginnings p.names).dropLast.getLast? := by
    unfold parent?
    rw [← List.getLast?_map, List.map_dropLast, map_names_waypoints h.dot_not_mem]
  rcases beginnings_eq p.names with ⟨htop, hnil⟩ | ⟨m, last, -, hplace, hbeginnings⟩
  · rw [hnil] at hparent
    exact .inl ⟨by simp [place, htop], Option.map_eq_none_iff.1 hparent⟩
  · have haround : p.place.dropLast = placeOf m := by rw [place, hplace, List.dropLast_concat]
    rw [hbeginnings, List.dropLast_concat] at hparent
    rw [haround]
    rcases beginnings_eq m with ⟨htop, hnil⟩ | ⟨n, name, hname, hplace', hbeginnings'⟩
    · rw [hnil] at hparent
      exact .inl ⟨htop, Option.map_eq_none_iff.1 hparent⟩
    · rw [hbeginnings', List.getLast?_concat] at hparent
      obtain ⟨q, hq, hnames⟩ := Option.map_eq_some_iff.1 hparent
      have hmem : q ∈ p.waypoints := List.dropLast_subset _ (List.mem_of_getLast? hq)
      have hleads : q.LeadsOn n name := ⟨h.of_mem_waypoints hmem, hnames, hname⟩
      exact .inr ⟨q, n, name, hq, hleads, by rw [hleads.place_eq, hplace']⟩

end MetadataArchive.Path
