import MetadataArchive.GuidMap
import MetadataArchive.Proofs.Files.Clear
import MetadataArchive.Proofs.Wire.RoundTrip

/-!
# Saving GUID maps

What a save leaves at the path of a map is what the map is loaded from, and to save the map once
more changes nothing. These hold at any path. At a path of ordinary components that ends in one of
them, a save that fails has changed nothing, and one that succeeds only the file and what was
missing on the way to it.
-/

namespace MetadataArchive.GuidMap

open MetadataArchive.Path (placeOf)

variable {m : GuidMap} {s s' : FileSystem} {path : Path} {text : String} {guids : StringMap String}
  {events : List GuidMapEvent}

/-! ## What a save does -/

/-- A file that is missing is as good as removed. -/
theorem removeFile_eq_ok_iff : removeFile s path = (s', .ok ()) ↔
    s.remove path = .ok s' ∨ s.remove path = .error .notFound ∧ s' = s := by
  unfold removeFile
  cases s.remove path with
  | ok s₁ => simp
  | error e => cases e <;> simp [eq_comm]

theorem writeFile_eq_ok_iff : writeFile s path text = (s', .ok ()) ↔
    ∃ s₁, makeParents s path = (s₁, .ok ()) ∧ s₁.write path text.toUTF8 = .ok s' := by
  unfold writeFile
  generalize text.toUTF8 = content
  obtain ⟨s₁, made⟩ := makeParents s path
  cases made with
  | error e => simp
  | ok => cases hwrite : s₁.write path content <;> simp [hwrite]

theorem save_of_isEmpty (h : m.isEmpty = true) (s : FileSystem) :
    m.save s = ((removeFile s m.path).1, (removeFile s m.path).2, [.removing m.path]) := by
  unfold save
  exact if_pos h

theorem save_of_isEmpty_eq_false (h : m.isEmpty = false) (s : FileSystem) :
    m.save s =
      match writeFile s m.path (codec.encodePretty m.guids) with
      | (s, .ok ()) => (s, .ok (), [.saved m.path m.size])
      | (s, .error e) => (s, .error e, []) := by
  unfold save
  exact if_neg (by simp [h])

/-- An empty map has its file removed, and any other has it written. -/
theorem save_eq_ok_iff : m.save s = (s', .ok (), events) ↔
    m.isEmpty = true ∧ events = [.removing m.path] ∧ removeFile s m.path = (s', .ok ()) ∨
      m.isEmpty = false ∧ events = [.saved m.path m.size] ∧
        writeFile s m.path (codec.encodePretty m.guids) = (s', .ok ()) := by
  cases hempty : m.isEmpty with
  | true =>
    rw [save_of_isEmpty hempty]
    obtain ⟨s₁, removed⟩ := removeFile s m.path
    simp only [Prod.mk.injEq, true_and, Bool.true_eq_false, false_and, or_false]
    rw [@eq_comm _ events]
    tauto
  | false =>
    rw [save_of_isEmpty_eq_false hempty]
    obtain ⟨s₁, written⟩ := writeFile s m.path (codec.encodePretty m.guids)
    cases written with
    | error e => simp
    | ok => simp [eq_comm, and_comm]

theorem removeFile_eq_error {e : GuidMapError} (h : removeFile s path = (s', .error e)) :
    s' = s := by
  unfold removeFile at h
  split at h <;> cases h
  rfl

theorem writeFile_eq_error {e : GuidMapError} (h : writeFile s path text = (s', .error e)) :
    ∃ made, makeParents s path = (s', made) := by
  unfold writeFile at h
  split at h
  · next hmake =>
    cases h
    exact ⟨_, hmake⟩
  · next hmake =>
    split at h <;> cases h
    exact ⟨_, hmake⟩

/-- A save that fails has left the file alone, but may have made directories. -/
theorem save_eq_error {e : GuidMapError} (h : m.save s = (s', .error e, events)) :
    s' = s ∨ ∃ made, makeParents s m.path = (s', made) := by
  cases hempty : m.isEmpty with
  | true =>
    rw [save_of_isEmpty hempty] at h
    obtain ⟨hfst, hresult⟩ := Prod.mk.inj h
    left
    exact removeFile_eq_error (Prod.ext hfst (congrArg Prod.fst hresult))
  | false =>
    rw [save_of_isEmpty_eq_false hempty] at h
    right
    split at h
    · cases h
    · next hwrite =>
      cases h
      exact writeFile_eq_error hwrite

/-! ## Loading what was saved -/

theorem decode_encodePretty (guids : StringMap String) :
    codec.decode (codec.encodePretty guids) = some guids :=
  (Codec.decode_render_iff (Codec.restores_stringMap Codec.restores_string) (.indented 2) guids).2
    fun _ _ => trivial

theorem fromUTF8?_toUTF8 (text : String) : String.fromUTF8? text.toUTF8 = some text := by
  unfold String.fromUTF8?
  exact dif_pos text.isValidUTF8

theorem readGuids_of_find (h : s.find path = .ok (.file (codec.encodePretty guids).toUTF8)) :
    readGuids s path = .ok guids := by
  have hcontains : s.contains path = true := FileSystem.contains_eq_true_iff.2 ⟨_, h⟩
  have hread : s.read path = .ok (codec.encodePretty guids).toUTF8 := by
    unfold FileSystem.read
    rw [h]
    rfl
  unfold readGuids
  rw [if_pos hcontains, hread]
  dsimp only
  rw [fromUTF8?_toUTF8]
  dsimp only
  rw [decode_encodePretty]

theorem readGuids_of_contains_eq_false (h : s.contains path = false) :
    readGuids s path = .ok .empty := by
  unfold readGuids
  rw [if_neg (by simp [h])]

theorem contains_of_removeFile (h : removeFile s path = (s', .ok ())) :
    s'.contains path = false := by
  rcases removeFile_eq_ok_iff.1 h with hremove | ⟨hremove, rfl⟩
  · exact FileSystem.contains_remove hremove
  · exact FileSystem.contains_of_remove_eq_notFound hremove

theorem find_of_writeFile (h : writeFile s path text = (s', .ok ())) :
    s'.find path = .ok (.file text.toUTF8) := by
  obtain ⟨s₁, -, hwrite⟩ := writeFile_eq_ok_iff.1 h
  exact FileSystem.find_write hwrite

theorem readGuids_of_save (h : m.save s = (s', .ok (), events)) :
    readGuids s' m.path = .ok m.guids := by
  rcases save_eq_ok_iff.1 h with ⟨hempty, -, hremove⟩ | ⟨-, -, hwrite⟩
  · have hguids : m.guids = .empty :=
      StringMap.eq_of_entries_eq (List.isEmpty_iff.1 hempty)
    rw [hguids]
    exact readGuids_of_contains_eq_false (contains_of_removeFile hremove)
  · exact readGuids_of_find (find_of_writeFile hwrite)

/-- What was saved is loaded. -/
theorem load_of_save (h : m.save s = (s', .ok (), events)) : (load s' m.path).1 = .ok m := by
  unfold load
  rw [readGuids_of_save h]

/-- There is a file exactly if the map that was saved has entries. -/
theorem contains_of_save (h : m.save s = (s', .ok (), events)) :
    s'.contains m.path = !m.isEmpty := by
  rcases save_eq_ok_iff.1 h with ⟨hempty, -, hremove⟩ | ⟨hempty, -, hwrite⟩
  · rw [hempty, contains_of_removeFile hremove]
    rfl
  · rw [hempty]
    exact FileSystem.contains_eq_true_iff.2 ⟨_, find_of_writeFile hwrite⟩

/-! ## Saving once more -/

/-- Directories around a file that were made are there to be passed after it was written. -/
theorem makeParents_of_changesAt {s₁ : FileSystem} {place : Location}
    (h : makeParents s path = (s₁, .ok ())) (hchange : s₁.ChangesAt s' place) :
    makeParents s' path = (s', .ok ()) := by
  unfold makeParents at h ⊢
  cases hparent : path.parent? with
  | none => rfl
  | some parent =>
    rw [hparent] at h
    show s'.makeDirectories parent = (s', .ok ())
    by_cases htext : parent.text = ""
    · unfold FileSystem.makeDirectories
      rw [if_pos htext]
    · exact FileSystem.makeDirectories_of_isDirectory
        (hchange.isDirectory (FileSystem.isDirectory_of_makeDirectories h htext))

theorem writeFile_writeFile (h : writeFile s path text = (s', .ok ())) :
    writeFile s' path text = (s', .ok ()) := by
  obtain ⟨s₁, hmake, hwrite⟩ := writeFile_eq_ok_iff.1 h
  obtain ⟨place, hchange⟩ := FileSystem.changesAt_of_write hwrite
  exact writeFile_eq_ok_iff.2
    ⟨s', makeParents_of_changesAt hmake hchange, FileSystem.write_write hwrite⟩

theorem removeFile_removeFile (h : removeFile s path = (s', .ok ())) :
    removeFile s' path = (s', .ok ()) := by
  rcases removeFile_eq_ok_iff.1 h with hremove | ⟨hremove, rfl⟩
  · exact removeFile_eq_ok_iff.2 (.inr ⟨FileSystem.remove_remove hremove, rfl⟩)
  · exact h

/-- To save the same map once more changes nothing. -/
theorem save_save (h : m.save s = (s', .ok (), events)) : m.save s' = (s', .ok (), events) := by
  rcases save_eq_ok_iff.1 h with ⟨hempty, hevents, hremove⟩ | ⟨hempty, hevents, hwrite⟩
  · exact save_eq_ok_iff.2 (.inl ⟨hempty, hevents, removeFile_removeFile hremove⟩)
  · exact save_eq_ok_iff.2 (.inr ⟨hempty, hevents, writeFile_writeFile hwrite⟩)

/-! ## All or nothing -/

/-- The directories around a file are those on the way to its place. -/
theorem makeParents_cases (hp : path.IsOrdinary) (s : FileSystem) :
    path.place.dropLast = [] ∧ makeParents s path = (s, .ok ()) ∨
      ∃ q m last, q.LeadsOn m last ∧ q.place = path.place.dropLast ∧
        makeParents s path = s.makeDirectories q := by
  unfold makeParents
  rcases hp.parent?_eq with ⟨htop, hparent⟩ | ⟨q, m, last, hparent, hq, hplace⟩
  · rw [hparent]
    exact .inl ⟨htop, rfl⟩
  · rw [hparent]
    exact .inr ⟨q, m, last, hq, hplace, rfl⟩

section

variable (hlimits : s.limits = .unlimited) (hp : path.IsOrdinary)

include hlimits hp

theorem makeParents_of_directory (h : s.node? path.place.dropLast = some .directory) :
    makeParents s path = (s, .ok ()) := by
  rcases makeParents_cases hp s with ⟨-, hmake⟩ | ⟨q, m, last, hq, hplace, hmake⟩
  · exact hmake
  · rw [hmake]
    rw [← hplace] at h
    exact FileSystem.makeDirectories_of_isDirectory
      ((FileSystem.isDirectory_iff_node? hlimits hq).2 h)

theorem makeParents_of_clear (h : s.Clear path.place.dropLast) :
    ∃ s', makeParents s path = (s', .ok ()) ∧ s.MadeTo s' path.place.dropLast := by
  rcases makeParents_cases hp s with ⟨htop, hmake⟩ | ⟨q, m, last, hq, hplace, hmake⟩
  · refine ⟨s, hmake, FileSystem.madeTo_self (h.node?_eq.resolve_right ?_)⟩
    simp [htop, FileSystem.node?]
  · rw [hmake]
    rw [← hplace] at h ⊢
    exact FileSystem.makeDirectories_of_clear hlimits hq h

/-- Where a file stands on the way, no directory is made. -/
theorem makeParents_of_not_clear (h : ¬ s.Clear path.place.dropLast) :
    ∃ made, makeParents s path = (s, made) := by
  rcases makeParents_cases hp s with ⟨-, hmake⟩ | ⟨q, m, last, hq, hplace, hmake⟩
  · exact ⟨.ok (), hmake⟩
  · rw [← hplace] at h
    obtain ⟨e, hdirectories⟩ := FileSystem.makeDirectories_of_not_clear hlimits hq h
    exact ⟨.error e, hmake.trans hdirectories⟩

theorem makesOnly_of_makeParents {made : Except FileError Unit}
    (h : makeParents s path = (s', made)) : s.MakesOnly s' path.place := by
  by_cases hclear : s.Clear path.place.dropLast
  · obtain ⟨s₁, hmake, hmade⟩ := makeParents_of_clear hlimits hp hclear
    rw [hmake] at h
    cases h
    exact hmade.makesOnly hclear
  · obtain ⟨made', hmake⟩ := makeParents_of_not_clear hlimits hp hclear
    rw [hmake] at h
    cases h
    exact s.makesOnly_refl path.place

end

section

variable {before : List String} {name : String} (hlimits : s.limits = .unlimited)
  (hp : path.LeadsOn before name)

include hlimits hp

theorem writeFile_of_admits (hslash : path.endsWithSlash = false) (h : s.Admits path.place)
    (text : String) : ∃ s', writeFile s path text = (s', .ok ()) := by
  obtain ⟨hclear, hnode⟩ := h
  obtain ⟨s₁, hmake, hmade⟩ := makeParents_of_clear hlimits hp.isOrdinary hclear
  have hnode₁ : s₁.node? path.place ≠ some .directory := by
    rcases hmade.makesOnly hclear path.place with hkept | ⟨-, hne, -⟩
    · rw [hkept]
      exact hnode
    · exact absurd rfl hne
  have hbefore : s₁.node? (placeOf before) = some .directory := by
    simpa [hp.place_eq] using hmade.node?_self
  obtain ⟨s₂, hwrite⟩ := FileSystem.write_of_directory (hmade.limits.trans hlimits) hp hslash
    hbefore hnode₁ text.toUTF8
  exact ⟨s₂, writeFile_eq_ok_iff.2 ⟨s₁, hmake, hwrite⟩⟩

theorem writeFile_of_not_admits (h : ¬ s.Admits path.place) (text : String) :
    ∃ e, writeFile s path text = (s, .error e) := by
  have hwrite : ∃ e, s.write path text.toUTF8 = .error e := by
    cases hwrite : s.write path text.toUTF8 with
    | ok s' => exact absurd (FileSystem.admits_of_write hp.isOrdinary.dots_not_mem hwrite) h
    | error e => exact ⟨e, rfl⟩
  have hmake : ∃ made, makeParents s path = (s, made) := by
    by_cases hclear : s.Clear path.place.dropLast
    · -- there is a directory at the place, and so one around it
      have hnode := FileSystem.node?_eq_directory_of_not_admits hclear h
      exact ⟨.ok (), makeParents_of_directory hlimits hp.isOrdinary
        (FileSystem.node?_of_isPrefix_directory hnode (List.dropLast_prefix _))⟩
    · exact makeParents_of_not_clear hlimits hp.isOrdinary hclear
  obtain ⟨e, hwrite⟩ := hwrite
  obtain ⟨made, hmake⟩ := hmake
  unfold writeFile
  rw [hmake]
  cases made with
  | error e => exact ⟨.makingDirectories e, rfl⟩
  | ok => exact ⟨.writing path, by simp only [hwrite]⟩

theorem removeFile_of_admits (hslash : path.endsWithSlash = false) (h : s.Admits path.place) :
    ∃ s', removeFile s path = (s', .ok ()) := by
  rcases FileSystem.remove_of_admits hlimits hp hslash h with hremove | ⟨s', hremove⟩
  · exact ⟨s, removeFile_eq_ok_iff.2 (.inr ⟨hremove, rfl⟩)⟩
  · exact ⟨s', removeFile_eq_ok_iff.2 (.inl hremove)⟩

theorem removeFile_of_not_admits (h : ¬ s.Admits path.place) :
    ∃ e, removeFile s path = (s, .error e) := by
  obtain ⟨e, hne, hremove⟩ := FileSystem.remove_of_not_admits hlimits hp h
  refine ⟨.removing path, ?_⟩
  unfold removeFile
  rw [hremove]
  cases e <;> first | rfl | exact absurd rfl hne

end

section

variable {before : List String} {name : String} (hlimits : s.limits = .unlimited)
  (hp : m.path.LeadsOn before name)

include hlimits hp

/-- Where something is in the way of the file, a save fails and changes nothing. -/
theorem save_of_not_admits (h : ¬ s.Admits m.path.place) :
    ∃ e events, m.save s = (s, .error e, events) := by
  cases hempty : m.isEmpty with
  | true =>
    obtain ⟨e, hremove⟩ := removeFile_of_not_admits hlimits hp h
    rw [save_of_isEmpty hempty, hremove]
    exact ⟨e, _, rfl⟩
  | false =>
    obtain ⟨e, hwrite⟩ := writeFile_of_not_admits hlimits hp h (codec.encodePretty m.guids)
    rw [save_of_isEmpty_eq_false hempty, hwrite]
    exact ⟨e, _, rfl⟩

/-- A save succeeds exactly where nothing is in the way of the file. -/
theorem exists_save_eq_ok_iff (hslash : m.path.endsWithSlash = false) :
    (∃ s' events, m.save s = (s', .ok (), events)) ↔ s.Admits m.path.place := by
  constructor
  · rintro ⟨s', events, hsave⟩
    by_contra hnot
    obtain ⟨e, events, herror⟩ := save_of_not_admits hlimits hp hnot
    rw [herror] at hsave
    cases hsave
  · intro h
    cases hempty : m.isEmpty with
    | true =>
      obtain ⟨s', hremove⟩ := removeFile_of_admits hlimits hp hslash h
      exact ⟨s', _, save_eq_ok_iff.2 (.inl ⟨hempty, rfl, hremove⟩)⟩
    | false =>
      obtain ⟨s', hwrite⟩ := writeFile_of_admits hlimits hp hslash h (codec.encodePretty m.guids)
      exact ⟨s', _, save_eq_ok_iff.2 (.inr ⟨hempty, rfl, hwrite⟩)⟩

end

section

variable (hlimits : s.limits = .unlimited) (hp : m.path.IsOrdinary)

include hlimits hp

theorem changesOnly_of_save (h : m.save s = (s', .ok (), events)) :
    s.ChangesOnly s' m.path.place := by
  rcases save_eq_ok_iff.1 h with ⟨-, -, hremove⟩ | ⟨-, -, hwrite⟩
  · rcases removeFile_eq_ok_iff.1 hremove with hremove | ⟨-, rfl⟩
    · exact FileSystem.changesOnly_of_remove hp.dots_not_mem hremove
    · exact FileSystem.changesOnly_refl _ _
  · obtain ⟨s₁, hmake, hwrite⟩ := writeFile_eq_ok_iff.1 hwrite
    exact (makesOnly_of_makeParents hlimits hp hmake).changesOnly_of_write hp.dots_not_mem hwrite

/-- A save that fails has at most made directories. -/
theorem makesOnly_of_save {e : GuidMapError} (h : m.save s = (s', .error e, events)) :
    s.MakesOnly s' m.path.place := by
  rcases save_eq_error h with rfl | ⟨made, hmake⟩
  · exact FileSystem.makesOnly_refl _ _
  · exact makesOnly_of_makeParents hlimits hp hmake

/-- A save that fails has changed nothing, unless a slash or a dot follows the last component. -/
theorem eq_of_save_eq_error (hend : m.path.EndsInComponent) {e : GuidMapError}
    (h : m.save s = (s', .error e, events)) : s' = s := by
  by_cases hnil : m.path.names = []
  · rcases save_eq_error h with rfl | ⟨made, hmake⟩
    · rfl
    · -- a path without names has no directory around it
      rcases makeParents_cases hp s with ⟨-, hnone⟩ | ⟨q, n, last, hq, hplace, -⟩
      · exact congrArg Prod.fst (hmake.symm.trans hnone)
      · rw [hq.place_eq, Path.place, hnil] at hplace
        simp [placeOf] at hplace
  · obtain ⟨before, name, hleads⟩ := hp.exists_leadsOn hend hnil
    have hnot : ¬ s.Admits m.path.place := by
      intro hadmits
      obtain ⟨s₁, events', hsave⟩ := (exists_save_eq_ok_iff hlimits hleads hend.1).2 hadmits
      rw [hsave] at h
      cases h
    obtain ⟨e', events', hsave⟩ := save_of_not_admits hlimits hleads hnot
    rw [hsave] at h
    exact (congrArg Prod.fst h).symm

end

/-- A save at a path of ordinary components does all that it should or nothing, but that it may
have made directories if a slash or a dot follows the last component. If none does, it succeeds
exactly where nothing is in the way of the file. -/
theorem save_allOrNothing (m : GuidMap) (t : FileTree) (hp : m.path.IsOrdinary) :
    (∀ s' events, m.save ⟨.unlimited, t⟩ = (s', .ok (), events) →
      (load s' m.path).1 = .ok m ∧ s'.contains m.path = !m.isEmpty ∧
        FileSystem.ChangesOnly ⟨.unlimited, t⟩ s' m.path.place) ∧
    (∀ s' e events, m.save ⟨.unlimited, t⟩ = (s', .error e, events) →
      (m.path.EndsInComponent → s' = ⟨.unlimited, t⟩) ∧
        FileSystem.MakesOnly ⟨.unlimited, t⟩ s' m.path.place) ∧
    (m.path.EndsInComponent → m.path.names ≠ [] →
      ((∃ s' events, m.save ⟨.unlimited, t⟩ = (s', .ok (), events)) ↔
        FileSystem.Admits ⟨.unlimited, t⟩ m.path.place)) := by
  refine ⟨?_, ?_, ?_⟩
  · intro s' events h
    exact ⟨load_of_save h, contains_of_save h, changesOnly_of_save rfl hp h⟩
  · intro s' e events h
    exact ⟨fun hend => eq_of_save_eq_error rfl hp hend h, makesOnly_of_save rfl hp h⟩
  · intro hend hne
    obtain ⟨before, name, hleads⟩ := hp.exists_leadsOn hend hne
    exact exists_save_eq_ok_iff rfl hleads hend.1

/-- A map with one entry. -/
def glossaryMap (path : String) : GuidMap :=
  ⟨⟨path⟩, StringMap.empty.insert "Glossary" "5a1c2f0e-93d7-4b86-a0de-7c41b6f2d918"⟩

/-- The directory is made and the file written in it, but not where a file stands on the way. -/
theorem save_allOrNothing_glossaryMap :
    (∃ s' events, (glossaryMap "site/guids.json").save ⟨.unlimited, .empty⟩ =
        (s', .ok (), events) ∧
      (load s' ⟨"site/guids.json"⟩).1 = .ok (glossaryMap "site/guids.json") ∧
      s'.contains ⟨"site/guids.json"⟩ = true) ∧
    ∃ e events, (glossaryMap "site/guids.json").save
        ⟨.unlimited, .directory [("site", .file .empty)]⟩ =
      (⟨.unlimited, .directory [("site", .file .empty)]⟩, .error e, events) := by
  have hordinary : (glossaryMap "site/guids.json").path.IsOrdinary := by decide +kernel
  have hend : (glossaryMap "site/guids.json").path.EndsInComponent := by decide +kernel
  constructor
  · obtain ⟨s', events, hsave⟩ : ∃ s' events,
        (glossaryMap "site/guids.json").save ⟨.unlimited, .empty⟩ = (s', .ok (), events) :=
      ⟨_, _, rfl⟩
    obtain ⟨hload, hcontains, -⟩ :=
      (save_allOrNothing (glossaryMap "site/guids.json") .empty hordinary).1 s' events hsave
    exact ⟨s', events, hsave, hload, hcontains⟩
  · obtain ⟨s', e, events, hsave⟩ : ∃ s' e events,
        (glossaryMap "site/guids.json").save ⟨.unlimited, .directory [("site", .file .empty)]⟩ =
          (s', .error e, events) := ⟨_, _, _, rfl⟩
    obtain ⟨hkept, -⟩ := (save_allOrNothing (glossaryMap "site/guids.json")
      (.directory [("site", .file .empty)]) hordinary).2.1 s' e events hsave
    rw [hkept hend] at hsave
    exact ⟨e, events, hsave⟩

/-- With a slash after the last component, the directory is made all the same before it turns out
that the file cannot be written. -/
theorem save_slash_not_allOrNothing :
    (glossaryMap "site/guids.json/").path.IsOrdinary ∧
      ∃ s' events, (glossaryMap "site/guids.json/").save (.empty .unlimited) =
        (s', .error (.writing ⟨"site/guids.json/"⟩), events) ∧ s' ≠ .empty .unlimited := by
  refine ⟨by decide +kernel, _, _, rfl, ?_⟩
  intro heq
  have hmade := congrArg (fun s : FileSystem => s.isDirectory ⟨"site"⟩) heq
  revert hmade
  decide +kernel

end MetadataArchive.GuidMap
