import Mathlib.Data.List.Infix
import MetadataArchive.Files.Path

/-!
# The names in a path

What a path says, it says through its names: the beginnings of a path that end with a component have
those beginnings of its list of names that end in more than a dot.
-/

namespace MetadataArchive.Path

variable {p : Path} {cs part : List Char} {parts : List (List Char)} {c : Char}

/-! ## Parts between slashes -/

theorem splitSlashes_ne_nil (cs : List Char) : splitSlashes cs ≠ [] := by
  cases cs with
  | nil => simp [splitSlashes]
  | cons c cs =>
    rw [splitSlashes]
    split
    · simp
    · split <;> simp

theorem splitSlashes_cons_of_ne (h : c ≠ '/') (cs : List Char) :
    ∃ part parts, splitSlashes cs = part :: parts ∧
      splitSlashes (c :: cs) = (c :: part) :: parts := by
  obtain ⟨part, parts, hsplit⟩ := List.exists_cons_of_ne_nil (splitSlashes_ne_nil cs)
  refine ⟨part, parts, hsplit, ?_⟩
  rw [splitSlashes, if_neg h, hsplit]

theorem splitSlashes_of_not_mem (h : '/' ∉ cs) : splitSlashes cs = [cs] := by
  induction cs with
  | nil => rfl
  | cons c cs ih =>
    rw [List.mem_cons, not_or] at h
    rw [splitSlashes, if_neg (Ne.symm h.1), ih h.2]

theorem splitSlashes_append_slash (before cs : List Char) :
    splitSlashes (before ++ '/' :: cs) = splitSlashes before ++ splitSlashes cs := by
  induction before with
  | nil => simp [splitSlashes]
  | cons c before ih =>
    by_cases h : c = '/'
    · subst h
      simp [splitSlashes, ih]
    · obtain ⟨part, parts, hsplit, hcons⟩ := splitSlashes_cons_of_ne h before
      rw [hcons, List.cons_append, splitSlashes, if_neg h, ih, hsplit]
      rfl

theorem not_mem_of_mem_splitSlashes (h : part ∈ splitSlashes cs) : '/' ∉ part := by
  induction cs generalizing part with
  | nil =>
    obtain rfl : part = [] := by simpa [splitSlashes] using h
    simp
  | cons c cs ih =>
    by_cases hc : c = '/'
    · rw [splitSlashes, if_pos hc] at h
      rcases List.mem_cons.1 h with rfl | h
      · simp
      · exact ih h
    · obtain ⟨first, rest, hsplit, hcons⟩ := splitSlashes_cons_of_ne hc cs
      rw [hcons] at h
      rcases List.mem_cons.1 h with rfl | h
      · have hfirst := ih (hsplit ▸ List.mem_cons_self)
        simp [Ne.symm hc, hfirst]
      · exact ih (hsplit ▸ List.mem_cons_of_mem _ h)

/-- All of a text but its slashes is in its parts. -/
theorem exists_mem_splitSlashes (h : c ∈ cs) (hc : c ≠ '/') : ∃ part ∈ splitSlashes cs, c ∈ part := by
  induction cs with
  | nil => cases h
  | cons d cs ih =>
    by_cases hd : d = '/'
    · have hmem : c ∈ cs := (List.mem_cons.1 h).resolve_left fun heq => hc (heq.trans hd)
      obtain ⟨part, hpart, hcpart⟩ := ih hmem
      rw [splitSlashes, if_pos hd]
      exact ⟨part, List.mem_cons_of_mem _ hpart, hcpart⟩
    · obtain ⟨first, rest, hsplit, hcons⟩ := splitSlashes_cons_of_ne hd cs
      rw [hcons]
      rcases List.mem_cons.1 h with rfl | hmem
      · exact ⟨c :: first, List.mem_cons_self, List.mem_cons_self⟩
      · obtain ⟨part, hpart, hcpart⟩ := ih hmem
        rw [hsplit] at hpart
        rcases List.mem_cons.1 hpart with rfl | hpart
        · exact ⟨d :: part, List.mem_cons_self, List.mem_cons_of_mem _ hcpart⟩
        · exact ⟨part, List.mem_cons_of_mem _ hpart, hcpart⟩

/-! ## Names -/

/-- The names among some parts. -/
def partNames (parts : List (List Char)) : List String :=
  (parts.filter fun part => !part.isEmpty).map String.ofList

theorem names_eq (p : Path) : p.names = partNames (splitSlashes p.text.toList) :=
  rfl

theorem names_ofList (cs : List Char) : names ⟨String.ofList cs⟩ = partNames (splitSlashes cs) := by
  rw [names_eq, String.toList_ofList]

theorem partNames_cons (h : part ≠ []) (parts : List (List Char)) :
    partNames (part :: parts) = String.ofList part :: partNames parts := by
  simp [partNames, h]

theorem text_ne_of_names_ne (h : p.names ≠ []) : p.text ≠ "" := by
  intro htext
  apply h
  simp [names, htext, splitSlashes]

/-- All characters of a path but its slashes are in its names. -/
theorem exists_mem_names (h : c ∈ p.text.toList) (hc : c ≠ '/') :
    ∃ name ∈ p.names, c ∈ name.toList := by
  obtain ⟨part, hpart, hcpart⟩ := exists_mem_splitSlashes h hc
  have hne : part ≠ [] := List.ne_nil_of_mem hcpart
  exact ⟨String.ofList part, List.mem_map_of_mem (by simp [hpart, hne]), by simpa using hcpart⟩

/-- A path without names consists of slashes. -/
theorem isRooted_of_names_eq_nil (htext : p.text ≠ "") (hnames : p.names = []) :
    p.isRooted = true := by
  unfold isRooted
  cases hcs : p.text.toList with
  | nil => exact absurd (String.toList_eq_nil_iff.1 hcs) htext
  | cons c cs =>
    by_cases hc : c = '/'
    · simp [hc]
    · obtain ⟨name, hname, -⟩ := exists_mem_names (p := p) (hcs ▸ List.mem_cons_self) hc
      rw [hnames] at hname
      cases hname

/-! ## Beginnings -/

/-- Whether names end in more than a dot. -/
def endsInName (l : List String) : Bool :=
  l.getLast?.any fun name => name != "."

/-- The beginnings of some names that end in more than a dot, the shortest first. -/
def beginnings (l : List String) : List (List String) :=
  l.inits.filter endsInName

theorem beginnings_append_dot (l : List String) : beginnings (l ++ ["."]) = beginnings l := by
  simp [beginnings, List.inits_append, endsInName]

theorem beginnings_append_singleton {name : String} (hname : name ≠ ".") (l : List String) :
    beginnings (l ++ [name]) = beginnings l ++ [l ++ [name]] := by
  simp [beginnings, List.inits_append, endsInName, hname]

theorem beginnings_append_partNames (before : List Char) (hslash : ∀ part ∈ parts, '/' ∉ part) :
    beginnings (partNames (splitSlashes before) ++ partNames parts) =
      beginnings (partNames (splitSlashes before)) ++ (waypointsAfter before parts).map names := by
  induction parts generalizing before with
  | nil => simp [partNames, waypointsAfter]
  | cons part parts ih =>
    have hhere : partNames (splitSlashes (before ++ '/' :: part)) =
        partNames (splitSlashes before) ++ partNames [part] := by
      rw [splitSlashes_append_slash, splitSlashes_of_not_mem (hslash part List.mem_cons_self)]
      simp [partNames]
    have hrest := ih (before ++ '/' :: part) fun q hq => hslash q (List.mem_cons_of_mem _ hq)
    have hsplit : partNames (splitSlashes before) ++ partNames (part :: parts) =
        partNames (splitSlashes (before ++ '/' :: part)) ++ partNames parts := by
      rw [hhere, List.append_assoc]
      by_cases hnil : part = []
      · simp [partNames, hnil]
      · simp [partNames, hnil]
    rw [hsplit, hrest, hhere]
    by_cases hnil : part = []
    · simp [waypointsAfter, hnil, partNames]
    by_cases hdot : part = ['.']
    · -- a dot ends no beginning
      have hname : partNames [part] = ["."] := by rw [hdot]; rfl
      rw [hname, beginnings_append_dot, waypointsAfter, if_pos (.inr hdot)]
    · have hname : String.ofList part ≠ "." := by
        intro heq
        exact hdot (by simpa using congrArg String.toList heq)
      rw [partNames_cons hnil, waypointsAfter, if_neg (not_or.2 ⟨hnil, hdot⟩), List.map_cons,
        names_ofList, hhere, partNames_cons hnil]
      simp [partNames, beginnings_append_singleton hname]

theorem isRooted_eq_false_of_splitSlashes {first : List Char}
    (hsplit : splitSlashes p.text.toList = first :: parts) (hfirst : first ≠ []) :
    p.isRooted = false := by
  unfold isRooted
  cases hcs : p.text.toList with
  | nil => rfl
  | cons c cs =>
    by_cases hc : c = '/'
    · rw [hcs, splitSlashes, if_pos hc] at hsplit
      exact absurd (List.cons.inj hsplit).1.symm hfirst
    · simp [hc]

/-- Beginnings of a path have the beginnings of its names, unless it begins with a dot. -/
theorem map_names_waypoints (hdot : "." ∉ p.components) :
    p.waypoints.map names = beginnings p.names := by
  have hslash : ∀ part ∈ splitSlashes p.text.toList, '/' ∉ part :=
    fun part => not_mem_of_mem_splitSlashes
  rw [names_eq]
  unfold waypoints
  cases hsplit : splitSlashes p.text.toList with
  | nil => exact absurd hsplit (splitSlashes_ne_nil _)
  | cons first parts =>
    rw [hsplit] at hslash
    have hrest := beginnings_append_partNames first fun q hq => hslash q (List.mem_cons_of_mem _ hq)
    rw [splitSlashes_of_not_mem (hslash first List.mem_cons_self)] at hrest
    dsimp only
    by_cases hnil : first = []
    · subst hnil
      simpa [partNames, beginnings, endsInName] using hrest.symm
    · have hname : String.ofList first ≠ "." := by
        intro heq
        apply hdot
        unfold components
        rw [isRooted_eq_false_of_splitSlashes hsplit hnil, names_eq, hsplit, partNames_cons hnil, heq]
        simp
      have hfirst : partNames [first] = [String.ofList first] := by simp [partNames, hnil]
      have hbeginnings : beginnings [String.ofList first] = [[String.ofList first]] :=
        beginnings_append_singleton hname []
      rw [hfirst, hbeginnings] at hrest
      rw [if_neg hnil, List.map_cons, names_ofList, partNames_cons hnil,
        splitSlashes_of_not_mem (hslash first List.mem_cons_self), hfirst]
      exact hrest.symm

theorem flatten_splitSlashes {first : List Char} (h : splitSlashes cs = first :: parts) :
    first ++ (parts.map fun part => '/' :: part).flatten = cs := by
  induction cs generalizing first parts with
  | nil =>
    cases h
    rfl
  | cons c cs ih =>
    by_cases hc : c = '/'
    · obtain ⟨second, rest, hsplit⟩ := List.exists_cons_of_ne_nil (splitSlashes_ne_nil cs)
      rw [splitSlashes, if_pos hc, hsplit] at h
      cases h
      simp [hc, ih hsplit]
    · obtain ⟨second, rest, hsplit, hcons⟩ := splitSlashes_cons_of_ne hc cs
      rw [hcons] at h
      cases h
      simp [ih hsplit]

theorem isPrefix_of_mem_waypointsAfter {before : List Char} {q : Path}
    (h : q ∈ waypointsAfter before parts) :
    q.text.toList <+: before ++ (parts.map fun part => '/' :: part).flatten := by
  induction parts generalizing before with
  | nil => cases h
  | cons part parts ih =>
    have hrest : before ++ '/' :: part ++ (parts.map fun part => '/' :: part).flatten =
        before ++ ((part :: parts).map fun part => '/' :: part).flatten := by simp
    rw [← hrest]
    rw [waypointsAfter] at h
    split at h
    · exact ih h
    · rcases List.mem_cons.1 h with rfl | h
      · simp
      · exact ih h

/-- A beginning of a path begins its text. -/
theorem isPrefix_of_mem_waypoints {q : Path} (h : q ∈ p.waypoints) :
    q.text.toList <+: p.text.toList := by
  unfold waypoints at h
  cases hsplit : splitSlashes p.text.toList with
  | nil => exact absurd hsplit (splitSlashes_ne_nil _)
  | cons first parts =>
    rw [hsplit] at h
    rw [← flatten_splitSlashes hsplit]
    dsimp only at h
    split at h
    · exact isPrefix_of_mem_waypointsAfter h
    · rcases List.mem_cons.1 h with rfl | h
      · simp
      · exact isPrefix_of_mem_waypointsAfter h

theorem dot_not_mem_components_iff :
    "." ∉ p.components ↔ p.isRooted = true ∨ p.names.head? ≠ some "." := by
  unfold components
  cases hrooted : p.isRooted with
  | true => simp
  | false => cases p.names <;> simp [eq_comm]

/-- If a path begins with no dot, neither does any beginning of it. -/
theorem dot_not_mem_components_of_mem_waypoints {q : Path} (hdot : "." ∉ p.components)
    (h : q ∈ p.waypoints) : "." ∉ q.components := by
  have hbeginning : q.names ∈ beginnings p.names :=
    map_names_waypoints hdot ▸ List.mem_map_of_mem h
  obtain ⟨hnames, hends⟩ := List.mem_filter.1 hbeginning
  obtain ⟨rest, hrest⟩ := (List.mem_inits _ _).1 hnames
  obtain ⟨cs, hcs⟩ := isPrefix_of_mem_waypoints h
  have hne : q.names ≠ [] := by
    intro hnil
    simp [hnil, endsInName] at hends
  have htext : q.text.toList ≠ [] := by simpa using text_ne_of_names_ne hne
  -- both start in the same way
  have hrooted : q.isRooted = p.isRooted := by
    unfold isRooted
    rw [← hcs, List.head?_append_of_ne_nil _ htext]
  have hhead : q.names.head? = p.names.head? := by
    rw [← hrest, List.head?_append_of_ne_nil _ hne]
  rw [dot_not_mem_components_iff] at hdot ⊢
  rwa [hrooted, hhead]

end MetadataArchive.Path
