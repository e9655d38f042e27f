import Mathlib.Data.List.Induction
import Mathlib.Data.List.Infix
import MetadataArchive.Files.Tree
import MetadataArchive.Proofs.StringMap

/-!
# What stands at the places of a file tree

At a place of a file tree stands a file with its content, or a directory, or nothing. A tree is
known by what stands at its places: what lies in a directory stands at other places than the
directory. Changing what is at one place, where no directory is lost, changes nothing elsewhere.
-/

namespace MetadataArchive

/-- What can stand at a place, apart from what lies below it. -/
inductive FileNode where
  | file (content : ByteArray)
  | directory

instance : DecidablePred (· = some FileNode.directory)
  | some .directory => isTrue rfl
  | some (.file _) => isFalse nofun
  | none => isFalse nofun

namespace FileTree

/-- What a tree is at its top. -/
def node : FileTree → FileNode
  | file content => .file content
  | directory _ => .directory

/-- What stands at a place. -/
def node? (t : FileTree) (l : Location) : Option FileNode :=
  (t.at? l).map node

/-- A tree with nothing below its top: a file, or a directory without entries. -/
def IsLeaf : FileTree → Prop
  | file _ => True
  | directory entries => entries = []

@[simp]
theorem isLeaf_empty : empty.IsLeaf :=
  rfl

@[simp]
theorem isLeaf_file (content : ByteArray) : (file content).IsLeaf :=
  trivial

theorem node_eq_directory_iff {t : FileTree} :
    t.node = .directory ↔ ∃ entries, t = directory entries := by
  cases t <;> simp [node]

@[simp]
theorem node?_nil (t : FileTree) : t.node? [] = some t.node := by
  cases t <;> rfl

theorem node?_directory_cons (entries : List (String × FileTree)) (name : String) (l : Location) :
    (directory entries).node? (name :: l) = (entries.lookup name).bind fun t => t.node? l := by
  unfold node?
  rw [at?]
  cases entries.lookup name <;> rfl

theorem IsLeaf.node?_cons {t : FileTree} (h : t.IsLeaf) (name : String) (l : Location) :
    t.node? (name :: l) = none := by
  cases t with
  | file content => rfl
  | directory entries =>
    cases h
    rfl

theorem node?_append (t : FileTree) (l m : Location) :
    t.node? (l ++ m) = (t.at? l).bind fun u => u.node? m := by
  unfold node?
  rw [at?_append]
  cases t.at? l <;> rfl

/-- A place with a directory around it that has it. -/
theorem node?_eq_directory_iff {t : FileTree} {l : Location} :
    t.node? l = some .directory ↔ ∃ entries, t.at? l = some (directory entries) := by
  simp [node?, node_eq_directory_iff, @and_comm (t.at? l = _)]

/-- What stands somewhere but at the top stands in a directory. -/
theorem node?_of_node?_append_singleton {t : FileTree} {l : Location} {name : String}
    (h : t.node? (l ++ [name]) ≠ none) : t.node? l = some .directory := by
  rw [node?_append] at h
  rw [node?_eq_directory_iff]
  cases hat : t.at? l with
  | none =>
    rw [hat] at h
    exact absurd rfl h
  | some u =>
    cases u with
    | file content =>
      rw [hat] at h
      exact absurd rfl h
    | directory entries => exact ⟨entries, rfl⟩

/-- All places on the way to one where something stands are directories. -/
theorem node?_of_isPrefix {t : FileTree} {l q : Location} (hq : q <+: l) (hne : q ≠ l)
    (h : t.node? l ≠ none) : t.node? q = some .directory := by
  induction l using List.reverseRecOn with
  | nil => exact absurd (List.prefix_nil.1 hq) hne
  | append_singleton l name ih =>
    have hparent : t.node? l = some .directory := node?_of_node?_append_singleton h
    have hbefore : q <+: l := (List.prefix_concat_iff.1 hq).resolve_left hne
    by_cases heq : q = l
    · rw [heq, hparent]
    · exact ih hbefore heq (by simp [hparent])

/-! ## Replacing -/

variable {t : FileTree} {l : Location} {name : String} {new : Option FileTree}

theorem setEntry_setEntry (entries : List (String × FileTree)) (name : String)
    (new : Option FileTree) :
    setEntry (setEntry entries name new) name new = setEntry entries name new := by
  cases new with
  | none => exact StringMap.eraseEntry_eraseEntry name entries
  | some t => exact StringMap.insertEntry_insertEntry name t entries

/-- Replacing what is at a place by the same once more changes nothing. -/
theorem replace_replace (new : Option FileTree) (t : FileTree) (l : Location) :
    (t.replace new l).replace new l = t.replace new l := by
  induction l generalizing t with
  | nil => cases new <;> cases t <;> rfl
  | cons name names ih =>
    cases t with
    | file content => rfl
    | directory entries =>
      cases names with
      | nil =>
        simp only [replace]
        rw [setEntry_setEntry]
      | cons next rest =>
        cases hlookup : entries.lookup name with
        | none => simp [replace, hlookup]
        | some u =>
          have hentry : (setEntry entries name (some (u.replace new (next :: rest)))).lookup name =
              some (u.replace new (next :: rest)) := by
            rw [lookup_setEntry, if_pos rfl]
          rw [replace_cons hlookup (List.cons_ne_nil _ _),
            replace_cons hentry (List.cons_ne_nil _ _), ih, setEntry_setEntry]

/-- Nothing lies below a place where no directory is. -/
theorem node?_append_cons (h : t.node? l ≠ some .directory) (next : String) (rest : Location) :
    t.node? (l ++ next :: rest) = none := by
  rw [node?_append]
  cases hat : t.at? l with
  | none => rfl
  | some u =>
    cases u with
    | file content => rfl
    | directory entries => exact absurd (node?_eq_directory_iff.2 ⟨entries, hat⟩) h

theorem node?_replace_entry {entries : List (String × FileTree)}
    (hold : (directory entries).node? [name] ≠ some .directory)
    (hnew : ∀ u ∈ new, u.IsLeaf) (q : Location) :
    ((directory entries).replace new [name]).node? q =
      if q = [name] then new.map node else (directory entries).node? q := by
  cases q with
  | nil => rfl
  | cons first rest =>
    rw [replace, node?_directory_cons, lookup_setEntry]
    by_cases hfirst : first = name
    · subst hfirst
      cases rest with
      | nil => cases new <;> simp
      | cons next rest =>
        -- nothing lies below the place, neither before nor afterwards
        have hbefore : (directory entries).node? (first :: next :: rest) = none :=
          node?_append_cons (l := [first]) hold next rest
        have hafter : new.bind (fun u => u.node? (next :: rest)) = none := by
          cases new with
          | none => rfl
          | some u => exact (hnew u rfl).node?_cons next rest
        simp [hbefore, hafter]
    · simp [node?_directory_cons, hfirst]

/-- Replacing what is at a place, where no directory is, by something that has nothing below it:
only what stands at that place changes. -/
theorem node?_replace (hparent : t.node? l = some .directory)
    (hold : t.node? (l ++ [name]) ≠ some .directory) (hnew : ∀ u ∈ new, u.IsLeaf)
    (q : Location) :
    (t.replace new (l ++ [name])).node? q =
      if q = l ++ [name] then new.map node else t.node? q := by
  induction l generalizing t q with
  | nil =>
    obtain ⟨entries, ht⟩ := node?_eq_directory_iff.1 hparent
    obtain rfl : t = directory entries := Option.some.inj ht
    exact node?_replace_entry hold hnew q
  | cons head tail ih =>
    cases t with
    | file content => exact nomatch hparent
    | directory entries =>
      rw [node?_directory_cons] at hparent
      obtain ⟨u, hlookup, hu⟩ := Option.bind_eq_some_iff.1 hparent
      rw [List.cons_append, node?_directory_cons, hlookup, Option.bind_some] at hold
      rw [List.cons_append, replace_cons hlookup (List.append_ne_nil_of_right_ne_nil _ (by simp))]
      cases q with
      | nil => rfl
      | cons first rest =>
        rw [node?_directory_cons, node?_directory_cons, lookup_setEntry]
        by_cases hfirst : first = head
        · subst hfirst
          rw [if_pos rfl, hlookup, Option.bind_some, Option.bind_some, ih hu hold]
          simp
        · simp [hfirst]

end FileTree

end MetadataArchive
