import MetadataArchive.Proofs.Codec.Injective
import MetadataArchive.Proofs.Time.Grammar
import MetadataArchive.Proofs.Wire.Archive
import MetadataArchive.Proofs.Wire.Frames

/-!
# Creation dates

The creation date of a header is the instant that its text names. It does not matter in which way it
is spelled: on the clock of which offset, with how many digits, and with or without white space. So
headers that differ in the spelling of one instant are equal, and written alike.
-/

namespace MetadataArchive

/-! ## Items that an array must have -/

/-- Arrays that fields are read from all have an item with a number, and a codec reads it. -/
def Fields.NeedsItem {α τ : Type} (fs : Fields τ) (p : Place) (n : Nat) (c : Codec α) : Prop :=
  ∀ js t, fs.readItems p js = some t →
    ∃ before x after, js = before ++ x :: after ∧ before.length = n ∧ ∃ a, c.read p x = some a

namespace Fields

variable {α β γ : Type} {f : Field α} {fs : Fields β} {p : Place}

theorem needsItem_first (h : f.absent = none) : (cons f fs).NeedsItem p 0 f.codec := by
  intro js t hread
  cases js with
  | nil =>
    rw [readItems, h] at hread
    cases hread
  | cons x after =>
    obtain ⟨a, ha, -⟩ := Option.bind_eq_some_iff.1 hread
    exact ⟨[], x, after, rfl, rfl, a, ha⟩

theorem needsItem_rest {n : Nat} {c : Codec γ} (h : fs.NeedsItem p n c) :
    (cons f fs).NeedsItem p (n + 1) c := by
  intro js t hread
  cases js with
  | nil =>
    obtain ⟨_, -, hrest⟩ := Option.bind_eq_some_iff.1 hread
    obtain ⟨b, hb, -⟩ := Option.bind_eq_some_iff.1 hrest
    obtain ⟨_, _, _, hnil, -⟩ := h _ _ hb
    exact absurd hnil.symm (List.append_ne_nil_of_right_ne_nil _ (List.cons_ne_nil _ _))
  | cons first js =>
    obtain ⟨_, -, hrest⟩ := Option.bind_eq_some_iff.1 hread
    obtain ⟨b, hb, -⟩ := Option.bind_eq_some_iff.1 hrest
    obtain ⟨before, x, after, rfl, rfl, hx⟩ := h _ _ hb
    exact ⟨first :: before, x, after, rfl, rfl, hx⟩

end Fields

/-! ## Creation dates that are read -/

theorem Codec.read_timestamp (p : Place) (s : String) :
    timestamp.read p (.text s) = Timestamp.parse s :=
  rfl

theorem Codec.exists_eq_text_of_read_timestamp {p : Place} {j : Json} {t : Timestamp}
    (h : timestamp.read p j = some t) : ∃ s, j = .text s := by
  obtain ⟨s, hs, -⟩ := Option.bind_eq_some_iff.1 h
  cases j with
  | string s' =>
    cases hs
    exact ⟨s, rfl⟩
  | _ => cases hs

namespace ArchiveProperties

/-- The key of the creation date. -/
def dateKey : String :=
  "creationDate"

/-- A text that is a header whose creation date is spelled by a string, with all else of the header
given by a frame: an object or an array. -/
structure Dated (F : Frame) (text s : String) : Prop where
  leavesOpen : F.LeavesOpen 6
  parse : Json.parse text = some (F.fill dateKey (.text s))

variable {F : Frame} {text₀ text s₀ s : String} {h₀ : ArchiveProperties}

/-- Every header has a creation date. -/
theorem exists_dated_of_decode (h : codec.decode text = some h₀) : ∃ F s, Dated F text s := by
  obtain ⟨j, hparse, hread⟩ := Option.bind_eq_some_iff.1 h
  cases j with
  | object ms =>
    have henter : Place.top.enter = some ⟨Json.nestingLimit - 1, false⟩ := rfl
    have hobject : record.read .top (.object ms) = some h₀ := hread
    obtain ⟨-, -, -, -, -, -, ⟨habsent, hall⟩, -⟩ := Record.values_of_read_object henter hobject
    have hne : Json.valuesAt dateKey ms ≠ [] := fun hnil => nomatch habsent hnil
    obtain ⟨x, hx⟩ := List.exists_mem_of_ne_nil _ hne
    obtain ⟨s, rfl⟩ := Codec.exists_eq_text_of_read_timestamp (hall x hx)
    obtain ⟨before, after, rfl⟩ := List.append_of_mem (Json.mem_valuesAt.1 hx)
    exact ⟨.members before after, s, trivial, hparse⟩
  | array js =>
    have hneeds (p : Place) : record.fields.NeedsItem p 6 Codec.timestamp := by
      iterate 6 refine Fields.needsItem_rest ?_
      exact Fields.needsItem_first rfl
    obtain ⟨t, ht, -⟩ := Option.map_eq_some_iff.1 hread
    obtain ⟨before, x, after, rfl, hlength, t, hx⟩ := hneeds _ _ _ ht
    obtain ⟨s, rfl⟩ := Codec.exists_eq_text_of_read_timestamp hx
    exact ⟨.items before after, s, hlength, hparse⟩
  | _ => cases hread

/-- Which creation date is read does not depend on which one stood there before. -/
theorem read_timestamp_amend (p : Place) (t₀ : Timestamp) (s : String) :
    Codec.timestamp.read p (.text s) =
      amend (fun _ t => t) (Codec.timestamp.read p (.text t₀.render)) (Timestamp.parse s) := by
  rw [Codec.read_timestamp, Codec.read_timestamp, t₀.parse_render]
  cases Timestamp.parse s with
  | none => rfl
  | some t => rfl

/-- A header is read as with another creation date, but for that date. -/
theorem read_fill (hF : F.LeavesOpen 6) (t₀ : Timestamp) (s : String) :
    codec.read .top (F.fill dateKey (.text s)) =
      amend withCreationDate (codec.read .top (F.fill dateKey (.text t₀.render)))
        (Timestamp.parse s) := by
  have hdate := read_timestamp_amend ⟨Json.nestingLimit - 1, false⟩ t₀ s
  exact record.read_fill_amend rfl <|
    Frame.readFields_amend_rest hF (by decide) fun hF =>
    Frame.readFields_amend_rest hF (by decide) fun hF =>
    Frame.readFields_amend_rest hF (by decide) fun hF =>
    Frame.readFields_amend_rest hF (by decide) fun hF =>
    Frame.readFields_amend_rest hF (by decide) fun hF =>
    Frame.readFields_amend_rest hF (by decide) fun hF =>
    Frame.readFields_amend_first hF (by decide) hdate

/-- If a header decodes with one creation date, it decodes with every other that is read. -/
theorem Dated.decode_eq (hdecode₀ : codec.decode text₀ = some h₀) (hdated₀ : Dated F text₀ s₀)
    (hdated : Dated F text s) :
    codec.decode text = (Timestamp.parse s).map h₀.withCreationDate := by
  have hF := hdated.leavesOpen
  rw [Codec.decode, hdated₀.parse, Option.bind_some, read_fill hF h₀.creationDate] at hdecode₀
  rw [Codec.decode, hdated.parse, Option.bind_some, read_fill hF h₀.creationDate]
  obtain ⟨h, hread, hdate⟩ := Option.bind_eq_some_iff.1 hdecode₀
  obtain ⟨t₀, -, rfl⟩ := Option.map_eq_some_iff.1 hdate
  rw [hread]
  rfl

theorem Dated.parse_eq (hdecode : codec.decode text = some h₀) (hdated : Dated F text s) :
    Timestamp.parse s = some h₀.creationDate := by
  have hself := hdecode
  rw [hdated.decode_eq hdecode hdated] at hself
  obtain ⟨t, ht, hdate⟩ := Option.map_eq_some_iff.1 hself
  rw [ht]
  exact congrArg (fun h => some h.creationDate) hdate

/-- The creation date is the instant at which a clock shows the local time that is spelled. -/
theorem Dated.instant_eq (hdecode : codec.decode text = some h₀) (hdated : Dated F text s)
    {l : LocalTime} (hspells : Timestamp.Spells s.toList l) :
    h₀.creationDate.instant = l.instant := by
  obtain ⟨l', hspells', -, hinstant⟩ := Timestamp.parse_eq_some_iff.1 (hdated.parse_eq hdecode)
  rw [hinstant, hspells'.unique hspells]

/-- With two spellings the header is the same exactly if they are spellings of one instant. -/
theorem Dated.decode_eq_some_iff (hdecode₀ : codec.decode text₀ = some h₀)
    (hdated₀ : Dated F text₀ s₀) (hdated : Dated F text s) {l₀ l : LocalTime}
    (hspells₀ : Timestamp.Spells s₀.toList l₀) (hspells : Timestamp.Spells s.toList l)
    (hcovered : l.date.IsCovered) :
    codec.decode text = some h₀ ↔ l.instant = l₀.instant := by
  have hinstant₀ := hdated₀.instant_eq hdecode₀ hspells₀
  constructor
  · intro hdecode
    rw [← hdated.instant_eq hdecode hspells, hinstant₀]
  · intro heq
    have hread : Timestamp.parse s = some h₀.creationDate :=
      Timestamp.parse_eq_some_iff.2 ⟨l, hspells, hcovered, hinstant₀.trans heq.symm⟩
    rw [hdated₀.decode_eq hdecode₀ hdated, hread]
    rfl

theorem encode_injective : Function.Injective codec.encode :=
  (Codec.Restores.separates ArchiveProperties.restores_codec).encode_injective

/-- Every header has a creation date. Let another text differ from that of a header in how the creation
date is spelled, and in nothing else. It decodes exactly if it spells a local time whose date is
covered, as is its instant. It is then the same header but for the creation date, which is the
instant at which a clock shows that local time. So if both texts spell the same instant the headers
are equal, and only then they are written alike. -/
theorem decode_respelled (hdecode₀ : codec.decode text₀ = some h₀) :
    (∃ F s₀, Dated F text₀ s₀) ∧
      ∀ F s₀ text s, Dated F text₀ s₀ → Dated F text s →
        ((∃ h, codec.decode text = some h) ↔
          ∃ l, Timestamp.Spells s.toList l ∧ l.date.IsCovered ∧ l.instant.IsCovered) ∧
        (∀ h l, codec.decode text = some h → Timestamp.Spells s.toList l →
          h = h₀.withCreationDate h.creationDate ∧ h.creationDate.instant = l.instant) ∧
        ∀ l₀ l, Timestamp.Spells s₀.toList l₀ → Timestamp.Spells s.toList l → l.date.IsCovered →
          (codec.decode text = some h₀ ↔ l.instant = l₀.instant) ∧
            ∀ h, codec.decode text = some h →
              (codec.encode h = codec.encode h₀ ↔ l.instant = l₀.instant) := by
  refine ⟨exists_dated_of_decode hdecode₀, fun F s₀ text s hdated₀ hdated => ⟨?_, ?_, ?_⟩⟩
  · rw [← Timestamp.exists_parse_iff, hdated₀.decode_eq hdecode₀ hdated]
    simp only [Option.map_eq_some_iff]
    exact ⟨fun ⟨_, t, ht, _⟩ => ⟨t, ht⟩, fun ⟨t, ht⟩ => ⟨_, t, ht, rfl⟩⟩
  · intro h l hdecode hspells
    refine ⟨?_, hdated.instant_eq hdecode hspells⟩
    have hread := hdated.parse_eq hdecode
    rw [hdated₀.decode_eq hdecode₀ hdated, hread] at hdecode
    exact (Option.some.inj hdecode).symm
  · intro l₀ l hspells₀ hspells hcovered
    have hsame := hdated₀.decode_eq_some_iff hdecode₀ hdated hspells₀ hspells hcovered
    refine ⟨hsame, fun h hdecode => ?_⟩
    rw [encode_injective.eq_iff, ← hsame, hdecode, Option.some_inj]

/-! ## Headers with one instant -/

/-- A header of which only the creation date is left open. -/
def glossaryFrame : Frame :=
  .members [(some "archiveGuid", .text "guid-glossary"), (some "archiveName", .text "Glossary")] []

/-- The text of that header with a creation date. -/
def glossaryText (date : String) : String :=
  (glossaryFrame.fill dateKey (.text date)).compact

theorem dated_glossaryText (date : String) : Dated glossaryFrame (glossaryText date) date :=
  ⟨trivial, Json.parse_render _ _⟩

/-- Half a second into a leap second, an hour and a half into a year. -/
def leapSecond : Timestamp where
  date := .firstOfYear 2024
  time := ⟨1, 29, 60, 500000000, by omega, by omega, by omega, by decide⟩
  covered := by decide

theorem decode_glossaryText (date : String) : codec.decode (glossaryText date) =
    (Timestamp.parse date).map (.plain "guid-glossary" "Glossary") := by
  have hread : codec.read .top (glossaryFrame.fill dateKey (.text leapSecond.render)) =
      some (.plain "guid-glossary" "Glossary" leapSecond) := by decide +kernel
  rw [Codec.decode, (dated_glossaryText date).parse, Option.bind_some,
    read_fill (dated_glossaryText date).leavesOpen leapSecond, hread]
  rfl

theorem decode_glossaryText_leapSecond : codec.decode (glossaryText "2024-01-01T01:29:60.500Z") =
    some (.plain "guid-glossary" "Glossary" leapSecond) := by
  have hparse : Timestamp.parse "2024-01-01T01:29:60.500Z" = some leapSecond := by decide +kernel
  rw [decode_glossaryText, hparse, Option.map_some]

/-- The same leap second on a clock that is behind, where it is the end of the year before. -/
def leapSecondBehind : LocalTime where
  date := .lastOfYear 2023
  time := ⟨23, 59, 60, 500000000, by omega, by omega, by omega, by decide⟩
  offset := -90
  offset_mem := by omega

theorem decode_respelled_leapSecond :
    codec.decode (glossaryText "2024-01-01T01:29:60.500Z") =
        some (.plain "guid-glossary" "Glossary" leapSecond) ∧
      codec.decode (glossaryText " 2023 -12-31t23:59:60.50 -01:30") =
        some (.plain "guid-glossary" "Glossary" leapSecond) := by
  have hspells : Timestamp.Spells "2024-01-01T01:29:60.500Z".toList leapSecond.utc :=
    Timestamp.readLocal_eq_some_iff.1 (by decide +kernel)
  have hspellsBehind :
      Timestamp.Spells " 2023 -12-31t23:59:60.50 -01:30".toList leapSecondBehind :=
    Timestamp.readLocal_eq_some_iff.1 (by decide +kernel)
  obtain ⟨-, hrespelled⟩ := decode_respelled decode_glossaryText_leapSecond
  obtain ⟨-, -, hsame⟩ := hrespelled _ _ _ _ (dated_glossaryText _) (dated_glossaryText _)
  obtain ⟨hequal, -⟩ := hsame _ _ hspells hspellsBehind (by decide)
  exact ⟨decode_glossaryText_leapSecond, hequal.2 (by decide)⟩

/-! ## Local dates that are not covered -/

/-- The day after the last one that is covered, on a clock ahead. It is still the last day in
Coordinated Universal Time. -/
def dayAfterLast : LocalTime where
  date := .firstOfYear 262143
  time := ⟨1, 30, 15, 500000000, by omega, by omega, by omega, by decide⟩
  offset := 120
  offset_mem := by omega

/-- It is not enough that the instant is covered: the local date must be so as well. -/
theorem not_decodes_every_instant : ¬ ∀ {F : Frame} {text₀ text s₀ s : String}
    {h₀ : ArchiveProperties} {l : LocalTime}, codec.decode text₀ = some h₀ → Dated F text₀ s₀ →
      Dated F text s → Timestamp.Spells s.toList l → l.instant.IsCovered →
        ∃ h, codec.decode text = some h ∧ h.creationDate.instant = l.instant := by
  intro hall
  have hspells : Timestamp.Spells "+262143-01-01T01:30:15.5+02:00".toList dayAfterLast :=
    Timestamp.readLocal_eq_some_iff.1 (by decide +kernel)
  have hnone : Timestamp.parse "+262143-01-01T01:30:15.5+02:00" = none := by decide +kernel
  obtain ⟨h, hdecode, -⟩ := hall decode_glossaryText_leapSecond (dated_glossaryText _)
    (dated_glossaryText _) hspells (by decide)
  rw [decode_glossaryText, hnone] at hdecode
  cases hdecode

end ArchiveProperties

end MetadataArchive
