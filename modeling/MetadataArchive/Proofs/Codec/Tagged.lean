import MetadataArchive.Codec.Tagged
import MetadataArchive.Proofs.Codec.Record

/-!
# What tagged values restore

A categorized value is restored if its variant is: the tag is the only member under its key, and it
comes off again. A typed value is restored if both of its members are.
-/

namespace MetadataArchive.Codec

variable {α : Type} {depth : Nat} {ok : α → Prop}

/-! ## Categorized values -/

section Categorized

variable {key : String} {read : String → Place → Json → Option α}
  {write : α → String × List Json.Member}

/-- If the tag is the only member under its key, taking it off leaves the other members. -/
theorem splitTag_insert (tag : String) {before after : List Json.Member}
    (hkey : ∀ m ∈ before ++ after, m.1 ≠ some key) :
    splitTag key (.object (before ++ (some key, Json.text tag) :: after)) =
      some (tag, .object (before ++ after)) := by
  obtain ⟨hbefore, hafter⟩ := List.forall_mem_append.1 hkey
  have hvalues : Json.valuesAt key (before ++ (some key, Json.text tag) :: after) =
      [.string (some tag)] := by
    show Json.valuesAt key (before ++ ([(some key, Json.text tag)] ++ after)) = _
    rw [Json.valuesAt_append, Json.valuesAt_append, Json.valuesAt_of_forall_ne hbefore,
      Json.valuesAt_of_forall_ne hafter, Json.valuesAt_of_forall_eq (by simp)]
    rfl
  have hbody : (before ++ (some key, Json.text tag) :: after).filter (fun m => m.1 != some key) =
      before ++ after := by
    rw [List.filter_append, List.filter_cons_of_neg (by simp), ← List.filter_append]
    exact List.filter_eq_self.2 fun m hm => bne_iff_ne.2 (hkey m hm)
  simp only [splitTag, hvalues, hbody]

theorem splitTag_write (tag : String) {ms : List Json.Member} (hkey : ∀ m ∈ ms, m.1 ≠ some key) :
    splitTag key (.object ((some key, Json.text tag) :: ms)) = some (tag, .object ms) :=
  splitTag_insert tag (show ∀ m ∈ [] ++ ms, m.1 ≠ some key from hkey)

theorem readable_insertTag (tag : String) (before after : List Json.Member) (room : Nat) :
    (Json.object (before ++ (some key, Json.text tag) :: after)).readable room =
      (Json.object (before ++ after)).readable room := by
  rw [Json.readable, Json.readable, Json.readableMembers_append, Json.readableMembers_append,
    Json.readableMembers, Json.readable_text, Option.isSome_some, Bool.and_true, Bool.true_and]

theorem readable_tagged {tag : String} {ms : List Json.Member} {room : Nat}
    (h : (Json.object ms).readable room = true) :
    (Json.object ((some key, Json.text tag) :: ms)).readable room = true :=
  (readable_insertTag tag [] ms room).trans h

/-- An object with a tag put in is read as the variant without it. -/
theorem read_categorized_insertTag (tag : String) {before after : List Json.Member}
    (hkey : ∀ m ∈ before ++ after, m.1 ≠ some key) (p : Place) :
    (categorized key read write).read p
      (.object (before ++ (some key, Json.text tag) :: after)) =
        if (Json.object (before ++ after)).readable p.room then
          read tag p.categorize (.object (before ++ after))
        else none := by
  simp only [categorized, readable_insertTag, splitTag_insert tag hkey, Option.bind_some]

/-- An array with a tag in front is read as the variant without it. -/
theorem read_categorized_array (tag : String) (js : List Json) (p : Place) :
    (categorized key read write).read p (.array (Json.text tag :: js)) =
      if (Json.array (Json.text tag :: js)).readable p.room then
        read tag p.categorize (.array js)
      else none :=
  rfl

/-- What is left without the tag can be looked into as well. -/
theorem readable_of_splitTag {room : Nat} {j body : Json} {tag : String}
    (h : j.readable room = true) (hsplit : splitTag key j = some (tag, body)) :
    body.readable room = true := by
  unfold splitTag at hsplit
  split at hsplit
  · next ms =>
    split at hsplit
    · cases hsplit
      rw [Json.readable, Bool.and_eq_true, Json.readableMembers_iff] at h ⊢
      exact ⟨h.1, fun m hm => h.2 m (List.mem_of_mem_filter hm)⟩
    · cases hsplit
  · next js =>
    cases hsplit
    rw [Json.readable, Bool.and_eq_true, Json.readableItems_iff] at h ⊢
    exact ⟨h.1, fun x hx => h.2 x (List.mem_cons_of_mem _ hx)⟩
  · cases hsplit

/-- What is read is read by some tag from what is left without it. -/
theorem exists_of_read_categorized {p : Place} {j : Json} {a : α}
    (h : (categorized key read write).read p j = some a) :
    ∃ tag body, body.readable p.room = true ∧ read tag p.categorize body = some a := by
  simp only [categorized] at h
  split at h
  · next hreadable =>
    obtain ⟨⟨tag, body⟩, hsplit, hread⟩ := Option.bind_eq_some_iff.1 h
    exact ⟨tag, body, readable_of_splitTag hreadable hsplit, hread⟩
  · nomatch h

/-- A value with a category tag is restored if its variant is restored without it. -/
theorem restores_categorized (hkey : ∀ a, ∀ m ∈ (write a).2, m.1 ≠ some key)
    (hread : ∀ {p : Place} {a : α}, depth ≤ p.room →
      (read (write a).1 p (.object (write a).2) = some a ↔ ok a))
    (hreadable : ∀ {room : Nat} {a : α}, depth ≤ room → ok a →
      (Json.object (write a).2).readable room = true) :
    (categorized key read write).Restores depth ok where
  read_write {p a} hroom := by
    have hsplit := splitTag_write (write a).1 (hkey a)
    have hplace : depth ≤ p.categorize.room := hroom
    simp only [categorized, hsplit, Option.bind_some]
    constructor
    · intro h
      split at h
      · exact (hread hplace).1 h
      · nomatch h
    · intro hok
      rw [if_pos (readable_tagged (hreadable hroom hok))]
      exact (hread hplace).2 hok
  readable_write hroom hok := readable_tagged (hreadable hroom hok)
  write_ne_null _ h := nomatch h

end Categorized

/-! ## Typed values -/

section Typed

variable {τ : Type} {type : Codec τ} {value : τ → Place → Json → Option α} {kind : α → τ}
  {content : α → Json}

theorem readTyped_writeTyped {p q : Place} {a : α} (henter : p.enter = some q)
    (htype : type.read q (type.write (kind a)) = some (kind a)) :
    readTyped type value p (writeTyped type (kind a) (content a)) =
      value (kind a) q (content a) := by
  let ms : List Json.Member := [(some "type", type.write (kind a)), (some "value", content a)]
  have hall : (ms.all fun m => m.1.isSome) = true := rfl
  have htypes : Json.valuesAt "type" ms = [type.write (kind a)] := rfl
  have hvalues : Json.valuesAt "value" ms = [content a] := rfl
  have hwrite : writeTyped type (kind a) (content a) = .object ms := rfl
  rw [hwrite]
  simp only [readTyped, henter, hall, htypes, hvalues, htype, if_true, Option.bind_eq_bind,
    Option.bind_some]

/-- A value with its type is restored if the type is and, given the type, the value. -/
theorem restores_typed (htype : type.Restores depth fun _ => True)
    (hread : ∀ {p : Place} {a : α}, depth ≤ p.room →
      (value (kind a) p (content a) = some a ↔ ok a))
    (hreadable : ∀ {room : Nat} {a : α}, depth ≤ room → ok a →
      (content a).readable room = true) :
    (Codec.mk (readTyped type value) fun a => writeTyped type (kind a) (content a)).Restores
      (depth + 1) ok where
  read_write {p a} hroom := by
    obtain ⟨q, henter, hq⟩ := Place.exists_enter hroom
    show readTyped type value p (writeTyped type (kind a) (content a)) = some a ↔ _
    rw [readTyped_writeTyped henter ((htype.read_write hq).2 trivial)]
    exact hread hq
  readable_write {room a} hroom hok := by
    obtain ⟨room, rfl⟩ : ∃ n, room = n + 1 := ⟨room - 1, by omega⟩
    refine Json.readable_object fun m hm => ?_
    rcases List.mem_cons.1 hm with rfl | hm
    · exact ⟨rfl, htype.readable_write (by omega) trivial⟩
    · rw [List.mem_singleton.1 hm]
      exact ⟨rfl, hreadable (by omega) hok⟩
  write_ne_null _ h := nomatch h

end Typed

end MetadataArchive.Codec
