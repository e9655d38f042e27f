import MetadataArchive.Collection.StringMap

/-!
# File trees

A file tree consists of directories and regular files. What a tree holds is told by `FileTree.at?`,
which looks at one place in it, and `FileTree.replace` changes what is at one place.
-/

namespace MetadataArchive

/-- A regular file with its content, or a directory with its entries in ascending order of names. -/
inductive FileTree where
  | file (content : ByteArray)
  | directory (entries : List (String × FileTree))

/-- A place in a file tree: the names that lead to it from the top. -/
abbrev Location := List String

namespace FileTree

/-- The directory without entries. -/
def empty : FileTree :=
  directory []

/-- What is at a place. -/
def at? : FileTree → Location → Option FileTree
  | t, [] => some t
  | file _, _ :: _ => none
  | directory entries, name :: names => (entries.lookup name).bind fun t => t.at? names

/-- The entries of a directory with something else under a name, or nothing. -/
def setEntry (entries : List (String × FileTree)) (name : String) :
    Option FileTree → List (String × FileTree)
  | some t => StringMap.insertEntry name t entries
  | none => StringMap.eraseEntry name entries

/-- The tree with something else at a place, or nothing there. Its directory must be there. -/
def replace (new : Option FileTree) : FileTree → Location → FileTree
  | t, [] => new.getD t
  | file content, _ :: _ => file content
  | directory entries, [name] => directory (setEntry entries name new)
  | directory entries, name :: names =>
    match entries.lookup name with
    | some t => directory (setEntry entries name (some (t.replace new names)))
    | none => directory entries

theorem at?_append (t : FileTree) (l m : Location) :
    t.at? (l ++ m) = (t.at? l).bind fun u => u.at? m := by
  induction l generalizing t with
  | nil => rfl
  | cons name names ih =>
    cases t with
    | file content => rfl
    | directory entries =>
      rw [List.cons_append, at?, at?]
      cases entries.lookup name with
      | none => rfl
      | some u => exact ih u

theorem lookup_setEntry (entries : List (String × FileTree)) (name other : String)
    (new : Option FileTree) :
    (setEntry entries name new).lookup other =
      if other = name then new else entries.lookup other := by
  cases new with
  | none => exact StringMap.lookup_eraseEntry name other entries
  | some t => exact StringMap.lookup_insertEntry name other t entries

theorem replace_cons {entries : List (String × FileTree)} {name : String} {names : Location}
    {u : FileTree} (h : entries.lookup name = some u) (hne : names ≠ []) (new : Option FileTree) :
    (directory entries).replace new (name :: names) =
      directory (setEntry entries name (some (u.replace new names))) := by
  cases names with
  | nil => exact absurd rfl hne
  | cons next rest => simp [replace, h]

theorem at?_replace_self {t : FileTree} {l : Location} {entries : List (String × FileTree)}
    (h : t.at? l = some (directory entries)) (name : String) (new : Option FileTree) :
    (t.replace new (l ++ [name])).at? (l ++ [name]) = new := by
  induction l generalizing t with
  | nil =>
    obtain rfl : t = directory entries := Option.some_inj.1 h
    rw [List.nil_append, replace, at?, lookup_setEntry, if_pos rfl]
    cases new <;> rfl
  | cons first rest ih =>
    cases t with
    | file content => exact nomatch h
    | directory es =>
      rw [at?] at h
      obtain ⟨u, hu, hrest⟩ := Option.bind_eq_some_iff.1 h
      have hne : rest ++ [name] ≠ [] := List.append_ne_nil_of_right_ne_nil _ (List.cons_ne_nil _ _)
      rw [List.cons_append, replace_cons hu hne, at?, lookup_setEntry, if_pos rfl]
      exact ih hrest

end FileTree

end MetadataArchive
