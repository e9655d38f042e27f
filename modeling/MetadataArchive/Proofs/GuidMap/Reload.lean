import MetadataArchive.Proofs.Files.Agreement
import MetadataArchive.Proofs.GuidMap.Save

/-!
# Saving what was just loaded

A map that was just loaded is saved and loaded again without loss if it came from a file, and also if
there was nothing to load since nothing is at its path. But nothing is found either beneath a regular
file, and there the map, which is empty, cannot be saved: removing a file is refused for another cause
than its absence.
-/

namespace MetadataArchive.GuidMap

variable {m : GuidMap} {s s' : FileSystem} {path : Path} {content : ByteArray}

/-! ## What was loaded -/

theorem readGuids_of_load (h : (load s path).1 = .ok m) :
    m.path = path ∧ readGuids s path = .ok m.guids := by
  unfold load at h
  split at h
  · next guids hread =>
    cases h
    exact ⟨rfl, hread⟩
  · cases h

/-- What is loaded comes from a file, unless nothing is found. -/
theorem readGuids_cases {guids : StringMap String} (h : readGuids s path = .ok guids) :
    (∃ content, s.find path = .ok (.file content)) ∨
      (∃ e, s.find path = .error e) ∧ guids = .empty := by
  unfold readGuids FileSystem.contains FileSystem.read at h
  cases hfind : s.find path with
  | error e =>
    rw [hfind] at h
    exact .inr ⟨⟨e, rfl⟩, (Except.ok.inj h).symm⟩
  | ok t =>
    cases t with
    | file content => exact .inl ⟨content, rfl⟩
    | directory entries =>
      rw [hfind] at h
      cases h

/-! ## Saving it -/

/-- Where there is a file, a map is saved, be it by writing or by removing the file. -/
theorem exists_save_of_find_eq_file (hp : m.path.IsOrdinary)
    (h : s.find m.path = .ok (.file content)) : ∃ s' events, m.save s = (s', .ok (), events) := by
  cases hempty : m.isEmpty with
  | true =>
    obtain ⟨s', hremove⟩ := FileSystem.remove_of_find_eq_file h
    exact ⟨s', _, save_eq_ok_iff.2 (.inl ⟨hempty, rfl, removeFile_eq_ok_iff.2 (.inl hremove)⟩)⟩
  | false =>
    -- the directory around the file is there
    have hmake : makeParents s m.path = (s, .ok ()) := by
      unfold makeParents
      cases hparent : m.path.parent? with
      | none => rfl
      | some parent =>
        exact FileSystem.makeDirectories_of_isDirectory (FileSystem.isDirectory_parent hp
          (FileSystem.contains_eq_true_iff.2 ⟨_, h⟩) hparent)
    obtain ⟨s', hwrite⟩ := FileSystem.write_of_find_eq_file h (codec.encodePretty m.guids).toUTF8
    exact ⟨s', _, save_eq_ok_iff.2
      (.inr ⟨hempty, rfl, writeFile_eq_ok_iff.2 ⟨s, hmake, hwrite⟩⟩)⟩

/-- Where nothing is found, an empty map is saved if nothing is there, and else the save fails. -/
theorem save_of_find_eq_error (hempty : m.isEmpty = true) {e : FileError}
    (h : s.find m.path = .error e) : m.save s =
      (s, if e = .notFound then .ok () else .error (.removing m.path), [.removing m.path]) := by
  obtain ⟨e', hremove, hcause⟩ := FileSystem.remove_of_find_eq_error h
  rw [save_of_isEmpty hempty, removeFile, hremove]
  by_cases hnone : e = .notFound
  · rw [if_pos hnone, hcause.2 hnone]
  · rw [if_neg hnone]
    have hne : e' ≠ .notFound := fun heq => hnone (hcause.1 heq)
    cases e' <;> first | rfl | exact absurd rfl hne

/-- A map that was just loaded is saved, and is the same when it is loaded again, exactly if there is
a file at its path or nothing is there. If it is not, the save has failed and changed nothing. Where
nothing limits paths, what is not found is not there, unless a file stands on the way. -/
theorem save_load_iff (hp : path.IsOrdinary) (hload : (load s path).1 = .ok m) :
    ((∃ s' events, m.save s = (s', .ok (), events) ∧ (load s' path).1 = .ok m) ↔
        s.contains path = true ∨ s.find path = .error .notFound) ∧
      ((∀ s' events, m.save s ≠ (s', .ok (), events)) →
        m.save s = (s, .error (.removing path), [.removing path])) ∧
      (s.limits = .unlimited → s.node? [] = some .directory →
        (s.find path = .error .notFound ↔ s.contains path = false ∧ s.Clear path.place)) := by
  obtain ⟨rfl, hread⟩ := readGuids_of_load hload
  have hreload : (∃ s' events, m.save s = (s', .ok (), events) ∧ (load s' m.path).1 = .ok m) ↔
      ∃ s' events, m.save s = (s', .ok (), events) :=
    exists_congr fun _ => exists_congr fun _ => and_iff_left_of_imp load_of_save
  rw [hreload, FileSystem.contains_eq_true_iff, ← and_assoc]
  refine ⟨?_, fun hlimits htop => FileSystem.find_eq_notFound_iff hlimits htop hp⟩
  rcases readGuids_cases hread with ⟨content, hfind⟩ | ⟨⟨e, hfind⟩, hguids⟩
  · obtain ⟨s', events, hsave⟩ := exists_save_of_find_eq_file hp hfind
    exact ⟨iff_of_true ⟨s', events, hsave⟩ (.inl ⟨_, hfind⟩),
      fun hfails => absurd hsave (hfails s' events)⟩
  · have hempty : m.isEmpty = true := by
      unfold isEmpty
      rw [hguids]
      rfl
    rw [save_of_find_eq_error hempty hfind, hfind]
    by_cases hnone : e = .notFound <;> simp [hnone]

/-- A file system with the file of a map and nothing else. -/
def glossaryFiles : FileSystem :=
  ⟨.unlimited, .directory
    [("guids.json", .file (codec.encodePretty (glossaryMap "guids.json").guids).toUTF8)]⟩

/-- The map is saved over its file, but not the one that is loaded from beneath that file. -/
theorem save_load_iff_glossaryFiles :
    (∃ s' events, (glossaryMap "guids.json").save glossaryFiles = (s', .ok (), events) ∧
      (load s' ⟨"guids.json"⟩).1 = .ok (glossaryMap "guids.json")) ∧
    ¬ ∃ s' events, (GuidMap.mk ⟨"guids.json/backup.json"⟩ .empty).save glossaryFiles =
        (s', .ok (), events) ∧
      (load s' ⟨"guids.json/backup.json"⟩).1 = .ok ⟨⟨"guids.json/backup.json"⟩, .empty⟩ := by
  constructor
  · have hload : (load glossaryFiles ⟨"guids.json"⟩).1 = .ok (glossaryMap "guids.json") := by
      unfold load
      rw [readGuids_of_find rfl]
      rfl
    exact (save_load_iff (by decide +kernel) hload).1.2 (.inl (by decide +kernel))
  · intro h
    rcases (save_load_iff (by decide +kernel) rfl).1.1 h with hcontains | hfind
    · exact absurd hcontains (by decide +kernel)
    · cases hfind

/-- Beneath a regular file an empty map is loaded, and to save it at once fails. -/
theorem save_beneath_file :
    (⟨"guids.json/backup.json"⟩ : Path).IsOrdinary ∧
      (load glossaryFiles ⟨"guids.json/backup.json"⟩).1 =
        .ok ⟨⟨"guids.json/backup.json"⟩, .empty⟩ ∧
      (GuidMap.mk ⟨"guids.json/backup.json"⟩ .empty).save glossaryFiles =
        (glossaryFiles, .error (.removing ⟨"guids.json/backup.json"⟩),
          [.removing ⟨"guids.json/backup.json"⟩]) :=
  ⟨by decide +kernel, rfl, rfl⟩

end MetadataArchive.GuidMap
