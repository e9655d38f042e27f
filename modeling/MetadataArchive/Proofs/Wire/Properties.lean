import MetadataArchive.Proofs.Codec.Tagged
import MetadataArchive.Proofs.Wire.Positional

/-!
# Properties and their histories

Properties come from the members of a JSON object, from strings that are added if there are any, and
from values that are put in. Whatever comes in which order, what is left is the last value that each
key was given, and that alone decides the text, the number of properties and what is found.
-/

namespace MetadataArchive.InstanceProperties

open StringMap (lastValue? codePoints)
open RecordType (memberPlace)

/-! ## Histories -/

/-- One change to properties. -/
inductive Update where
  | insert (name : String) (value : PropertyValue)
  | addString (name : String) (value : Option String)

/-- The properties after a change. -/
def Update.apply (m : InstanceProperties) : Update → InstanceProperties
  | insert name value => StringMap.insert m name value
  | addString name value => m.addString name value

/-- The values that a change gives. -/
def Update.given : Update → List (String × PropertyValue)
  | insert name value => [(name, value)]
  | addString name (some s) => [(name, .string s)]
  | addString _ none => []

/-- How properties came about: read from a text or empty at first, and then changed. -/
structure History where
  text : Option String
  updates : List Update

namespace History

/-- The properties at the end of a history, if its text decodes. -/
def built (h : History) : Option InstanceProperties :=
  let start :=
    match h.text with
    | some s => codec.decode s
    | none => some .empty
  start.map fun m => h.updates.foldl Update.apply m

/-- The values that the members of an object text give, in their order. -/
def givenByText (s : String) : Option (List (String × PropertyValue)) :=
  match Json.parse s with
  | some (.object ms) => ms.mapM (Codec.readEntry PropertyValue.codec memberPlace)
  | _ => none

/-- All values that are given in a history, in their order. -/
def given (h : History) : Option (List (String × PropertyValue)) :=
  let start :=
    match h.text with
    | some s => givenByText s
    | none => some []
  start.map fun es => es ++ h.updates.flatMap Update.given

end History

/-! ## What is built from what is given -/

theorem Update.apply_eq_insertAll (m : InstanceProperties) (u : Update) :
    u.apply m = m.insertAll u.given := by
  rcases u with ⟨name, value⟩ | ⟨name, s | -⟩ <;> rfl

theorem foldl_apply (m : InstanceProperties) (us : List Update) :
    us.foldl Update.apply m = m.insertAll (us.flatMap Update.given) := by
  induction us generalizing m with
  | nil => rfl
  | cons u us ih =>
    rw [List.foldl_cons, ih, List.flatMap_cons, StringMap.insertAll_append,
      Update.apply_eq_insertAll]

theorem decode_eq_map_givenByText (s : String) :
    codec.decode s = (History.givenByText s).map StringMap.ofList := by
  rw [Codec.decode, History.givenByText]
  cases Json.parse s with
  | none => rfl
  | some j => cases j <;> rfl

theorem History.given_eq_of_text {s : String} {es : List (String × PropertyValue)}
    (h : givenByText s = some es) (updates : List Update) :
    given ⟨some s, updates⟩ = some (es ++ updates.flatMap Update.given) :=
  congrArg (Option.map _) h

/-- What is built is the map of all values that are given, of which later ones replace earlier
ones. -/
theorem History.built_eq_map_given (h : History) : h.built = h.given.map StringMap.ofList := by
  obtain ⟨text, updates⟩ := h
  have hofList (es : List (String × PropertyValue)) :
      updates.foldl Update.apply (StringMap.ofList es) =
        StringMap.ofList (es ++ updates.flatMap Update.given) := by
    rw [foldl_apply, StringMap.ofList, StringMap.ofList, StringMap.insertAll_append]
  cases text with
  | none => exact congrArg some (hofList [])
  | some s =>
    show (codec.decode s).map _ = ((givenByText s).map _).map _
    rw [decode_eq_map_givenByText, Option.map_map, Option.map_map]
    exact congrArg (Option.map · (givenByText s)) (funext hofList)

/-- A string that is missing gives nothing wherever it is added. -/
theorem History.built_addString_none (text : Option String) (before after : List Update)
    (name : String) :
    built ⟨text, before ++ .addString name none :: after⟩ = built ⟨text, before ++ after⟩ := by
  rw [built_eq_map_given, built_eq_map_given, given, given, List.flatMap_append,
    List.flatMap_append, List.flatMap_cons]
  rfl

/-! ## Texts -/

/-- Members with the same keys whose values are objects of the same members in any order. -/
def Reordered (ms ms' : List Json.Member) : Prop :=
  List.Forall₂ (fun m m' => m.1 = m'.1 ∧ ∃ vs vs', m.2 = .object vs ∧ m'.2 = .object vs' ∧
    vs.Perm vs') ms ms'

theorem givenByText_eq_of_reordered {s s' : String} {ms ms' : List Json.Member}
    (hs : Json.parse s = some (.object ms)) (hs' : Json.parse s' = some (.object ms'))
    (h : Reordered ms ms') : History.givenByText s = History.givenByText s' := by
  rw [History.givenByText, History.givenByText, hs, hs']
  show ms.mapM _ = ms'.mapM _
  clear hs hs'
  induction h with
  | nil => rfl
  | @cons m m' ms ms' first _ ih =>
    obtain ⟨key, j⟩ := m
    obtain ⟨key', j'⟩ := m'
    obtain ⟨rfl, vs, vs', rfl, rfl, hperm⟩ := first
    have hvalue : PropertyValue.codec.read memberPlace (.object vs) =
        PropertyValue.codec.read memberPlace (.object vs') := Codec.readTyped_perm hperm
    rw [List.mapM_cons, List.mapM_cons, ih, Codec.readEntry, Codec.readEntry, hvalue]

/-- A text lists the keys of the properties in their order. -/
theorem exists_parse_render (l : Json.Layout) (m : InstanceProperties) :
    ∃ ms, Json.parse ((codec.write m).render l) = some (.object ms) ∧
      ms.map Prod.fst = m.keys.map some := by
  refine ⟨_, Json.parse_render l _, ?_⟩
  rw [List.map_map, List.map_map, StringMap.keys, List.map_map]
  rfl

theorem pairwise_codePoints_keys (m : InstanceProperties) :
    (m.keys.map codePoints).Pairwise (· < ·) :=
  m.pairwise_keys.map codePoints fun _ _ hlt => StringMap.lt_iff_codePoints_lt.1 hlt

/-! ## One canonical text -/

/-- Properties at the end of a history hold exactly the keys that were given a value, each with the
last one, and their text lists these keys in strictly ascending order of code points. Two histories
that agree on the last value of every key end in the same text, the same description of an entity
and the same values found in it. A string that is missing changes nothing, nor does the order of
type and value in the values of a text. -/
theorem History.canonical :
    (∀ h : History, h.given = none → h.built = none) ∧
      (∀ {h : History} {es : List (String × PropertyValue)}, h.given = some es →
        ∃ m, h.built = some m ∧ (∀ key, m.get? key = lastValue? key es) ∧
          (∀ key, key ∈ m.keys ↔ key ∈ es.map Prod.fst) ∧
          (m.keys.map codePoints).Pairwise (· < ·) ∧
          ∀ l, ∃ ms, Json.parse ((codec.write m).render l) = some (.object ms) ∧
            ms.map Prod.fst = m.keys.map some) ∧
      (∀ {h h' : History} {m m' : InstanceProperties} {es es' : List (String × PropertyValue)},
        h.built = some m → h'.built = some m' → h.given = some es → h'.given = some es' →
        (∀ key, lastValue? key es = lastValue? key es') →
          codec.encode m = codec.encode m' ∧ codec.encodePretty m = codec.encodePretty m' ∧
            ∀ e : EntityDetail, { e with properties := m }.describe =
                { e with properties := m' }.describe ∧
              ∀ name, { e with properties := m }.property name =
                { e with properties := m' }.property name) ∧
      (∀ text before after name, built ⟨text, before ++ .addString name none :: after⟩ =
        built ⟨text, before ++ after⟩) ∧
      ∀ {s s' : String} {ms ms' : List Json.Member}, Json.parse s = some (.object ms) →
        Json.parse s' = some (.object ms') → Reordered ms ms' →
          ∀ updates, built ⟨some s, updates⟩ = built ⟨some s', updates⟩ := by
  refine ⟨?_, ?_, ?_, built_addString_none, ?_⟩
  · intro h hgiven
    rw [built_eq_map_given, hgiven, Option.map_none]
  · intro h es hgiven
    refine ⟨StringMap.ofList es, ?_, StringMap.get?_ofList es, fun key => ?_,
      pairwise_codePoints_keys _, fun l => exists_parse_render l _⟩
    · rw [built_eq_map_given, hgiven, Option.map_some]
    · rw [StringMap.mem_keys, StringMap.contains, StringMap.get?_ofList,
        StringMap.isSome_lastValue?_iff]
  · intro h h' m m' es es' hbuilt hbuilt' hgiven hgiven' hlast
    -- both are the map of what was given, and maps with the same look-ups are the same
    have hm : m = StringMap.ofList es := by
      rw [built_eq_map_given, hgiven] at hbuilt
      exact (Option.some.inj hbuilt).symm
    have hm' : m' = StringMap.ofList es' := by
      rw [built_eq_map_given, hgiven'] at hbuilt'
      exact (Option.some.inj hbuilt').symm
    have hsame : m = m' := by
      rw [hm, hm', StringMap.ofList_congr hlast]
    subst hsame
    exact ⟨rfl, rfl, fun _ => ⟨rfl, fun _ => rfl⟩⟩
  · intro s s' ms ms' hs hs' hreordered updates
    have hgiven : given ⟨some s, updates⟩ = given ⟨some s', updates⟩ :=
      congrArg (Option.map _) (givenByText_eq_of_reordered hs hs' hreordered)
    rw [built_eq_map_given, built_eq_map_given, hgiven]

/-- The members of an object with two values of the key `unit`. -/
def repeatedKeyMembers : List Json.Member :=
  [(some "unit", .object [(some "type", .text "int"), (some "value", .int 1)]),
    (some "count", .object [(some "type", .text "int"), (some "value", .int 2)]),
    (some "unit", .object [(some "value", .int 3), (some "type", .text "int")])]

/-- The text of that object. -/
def repeatedKeyText : String :=
  "\x7b\"unit\":\x7b\"type\":\"int\",\"value\":1\x7d," ++
    "\"count\":\x7b\"type\":\"int\",\"value\":2\x7d,\"unit\":\x7b\"value\":3,\"type\":\"int\"\x7d\x7d"

theorem parse_repeatedKeyText :
    Json.parse repeatedKeyText = some (.object repeatedKeyMembers) :=
  Json.parse_of_compact (by decide +kernel)

/-- Changes to the properties of that text, one of them a string that is missing. -/
def laterUpdates : List Update :=
  [.addString "note" none, .insert "count" (.int 4)]

/-- The same properties put in one by one. -/
def insertedHistory : History :=
  ⟨none, [.insert "count" (.int 4), .addString "note" none, .insert "unit" (.int 3)]⟩

theorem given_repeatedKeyText : History.given ⟨some repeatedKeyText, laterUpdates⟩ =
    some [("unit", .int 1), ("count", .int 2), ("unit", .int 3), ("count", .int 4)] := by
  have htext : History.givenByText repeatedKeyText =
      some [("unit", .int 1), ("count", .int 2), ("unit", .int 3)] := by
    rw [History.givenByText, parse_repeatedKeyText]
    rfl
  exact History.given_eq_of_text htext laterUpdates

theorem canonical_repeatedKeyText :
    ∃ m m', History.built ⟨some repeatedKeyText, laterUpdates⟩ = some m ∧
      insertedHistory.built = some m' ∧ m.get? "unit" = some (.int 3) ∧ m.get? "note" = none ∧
        codec.encode m = codec.encode m' := by
  obtain ⟨-, hbuilt, hagree, -, -⟩ := History.canonical
  have hgiven' : insertedHistory.given = some [("count", .int 4), ("unit", .int 3)] := rfl
  obtain ⟨m, hm, hlast, -, -, -⟩ := hbuilt given_repeatedKeyText
  obtain ⟨m', hm', -, -, -, -⟩ := hbuilt hgiven'
  refine ⟨m, m', hm, hm', (hlast _).trans rfl, (hlast _).trans rfl, ?_⟩
  refine (hagree hm hm' given_repeatedKeyText hgiven' fun key => ?_).1
  simp only [StringMap.lastValue?_cons]
  by_cases hunit : key = "unit"
  · simp [hunit]
  · by_cases hcount : key = "count"
    · simp [hcount]
    · simp [hunit, hcount]

end MetadataArchive.InstanceProperties
