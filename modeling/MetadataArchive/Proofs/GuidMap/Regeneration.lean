import Mathlib.Data.Finset.Card
import MetadataArchive.Proofs.GuidMap.Save

/-!
# GUIDs across runs

A run asks a map for the GUIDs of ids, one after another, and saves the map at its end. An id keeps
the GUID that it was given first, and requests for other ids do not touch it. So all ids known at the
end of a run have the same GUIDs in the next one, which draws none for them and saves the same file.
-/

namespace MetadataArchive

/-- The GUIDs still to be drawn differ from each other and from those in a map. -/
structure GuidSupply.FreshFor (supply : GuidSupply) (m : GuidMap) : Prop where
  injOn : ∀ i j, supply.drawn ≤ i → supply.drawn ≤ j → supply.guid i = supply.guid j → i = j
  get?_ne : ∀ i id, supply.drawn ≤ i → m.guids.get? id ≠ some (supply.guid i)

namespace GuidMap

variable {m n : GuidMap} {supply supply' : GuidSupply} {id other guid : String}
  {ids guids : List String}

/-- The GUIDs of ids, asked for one after another. -/
def guidsFor (m : GuidMap) (supply : GuidSupply) :
    List String → List String × GuidMap × GuidSupply
  | [] => ([], m, supply)
  | id :: ids =>
    let (guid, m, supply) := m.guidFor supply id
    let (guids, m, supply) := m.guidsFor supply ids
    (guid :: guids, m, supply)

/-- Each id was given the GUID that a map has for it. -/
def Gives (m : GuidMap) (ids guids : List String) : Prop :=
  ids.map m.guids.get? = guids.map some

/-- No GUID is that of two ids. -/
def Distinct (m : GuidMap) : Prop :=
  ∀ id other guid, m.guids.get? id = some guid → m.guids.get? other = some guid → id = other

/-! ## One request -/

/-- A request finds a GUID, or draws one and keeps it. -/
theorem guidFor_cases (h : m.guidFor supply id = (guid, n, supply')) :
    m.guids.get? id = some guid ∧ n = m ∧ supply' = supply ∨
      m.guids.get? id = none ∧ guid = supply.guid supply.drawn ∧
        n = { m with guids := m.guids.insert id guid } ∧
        supply' = { supply with drawn := supply.drawn + 1 } := by
  unfold guidFor at h
  cases hget : m.guids.get? id with
  | some known =>
    rw [hget] at h
    cases h
    exact .inl ⟨rfl, rfl, rfl⟩
  | none =>
    rw [hget] at h
    cases h
    exact .inr ⟨rfl, rfl, rfl, rfl⟩

/-- The GUID of a known id is the one that the map has. -/
theorem guidFor_of_get? (h : m.guids.get? id = some guid) (supply : GuidSupply) :
    m.guidFor supply id = (guid, m, supply) := by
  unfold guidFor
  rw [h]

/-- Afterwards the map has the GUID that was given, and those of other ids as before. -/
theorem get?_guidFor (h : m.guidFor supply id = (guid, n, supply')) (other : String) :
    n.guids.get? other = if other = id then some guid else m.guids.get? other := by
  rcases guidFor_cases h with ⟨hget, rfl, rfl⟩ | ⟨-, -, rfl, -⟩
  · split
    · next heq => rw [heq, hget]
    · rfl
  · exact StringMap.get?_insert m.guids id other guid

theorem path_guidFor (h : m.guidFor supply id = (guid, n, supply')) : n.path = m.path := by
  rcases guidFor_cases h with ⟨-, rfl, -⟩ | ⟨-, -, rfl, -⟩
  · rfl
  · rfl

/-- The GUID of an id is there to stay. -/
theorem get?_guidFor_of_some (h : m.guidFor supply id = (guid, n, supply')) {known : String}
    (hknown : m.guids.get? other = some known) : n.guids.get? other = some known := by
  rw [get?_guidFor h]
  split
  · next heq =>
    rw [heq] at hknown
    rw [guidFor_of_get? hknown] at h
    cases h
    rfl
  · exact hknown

theorem freshFor_guidFor (h : m.guidFor supply id = (guid, n, supply'))
    (hfresh : supply.FreshFor m) : supply'.FreshFor n := by
  rcases guidFor_cases h with ⟨-, rfl, rfl⟩ | ⟨-, rfl, -, rfl⟩
  · exact hfresh
  · constructor
    · intro i j hi hj
      exact hfresh.injOn i j (Nat.le_of_succ_le hi) (Nat.le_of_succ_le hj)
    · intro i other hi
      rw [get?_guidFor h]
      split
      · -- the GUID given was drawn before
        intro heq
        have hdrawn := hfresh.injOn _ _ (Nat.le_refl _) (Nat.le_of_succ_le hi) (Option.some.inj heq)
        exact absurd hi (by simp [hdrawn])
      · exact hfresh.get?_ne i other (Nat.le_of_succ_le hi)

theorem distinct_guidFor (h : m.guidFor supply id = (guid, n, supply'))
    (hfresh : supply.FreshFor m) (hdistinct : m.Distinct) : n.Distinct := by
  rcases guidFor_cases h with ⟨-, rfl, -⟩ | ⟨-, rfl, -, -⟩
  · exact hdistinct
  · intro a b g ha hb
    have hnew : ∀ c, m.guids.get? c ≠ some (supply.guid supply.drawn) :=
      fun c => hfresh.get?_ne _ c (Nat.le_refl _)
    rw [get?_guidFor h] at ha hb
    split at ha
    · next haid =>
      split at hb
      · next hbid => rw [haid, hbid]
      · exact absurd (hb.trans ha.symm) (hnew b)
    · split at hb
      · exact absurd (ha.trans hb.symm) (hnew a)
      · exact hdistinct a b g ha hb

/-! ## One request after another -/

theorem guidsFor_cons (h : m.guidsFor supply (id :: ids) = (guids, n, supply')) :
    ∃ guid m₁ supply₁ rest, m.guidFor supply id = (guid, m₁, supply₁) ∧
      m₁.guidsFor supply₁ ids = (rest, n, supply') ∧ guids = guid :: rest := by
  cases h
  exact ⟨_, _, _, _, rfl, rfl, rfl⟩

theorem path_guidsFor (h : m.guidsFor supply ids = (guids, n, supply')) : n.path = m.path := by
  induction ids generalizing m supply guids with
  | nil =>
    cases h
    rfl
  | cons id ids ih =>
    obtain ⟨guid, m₁, supply₁, rest, hstep, hrun, rfl⟩ := guidsFor_cons h
    exact (ih hrun).trans (path_guidFor hstep)

theorem get?_guidsFor_of_some (h : m.guidsFor supply ids = (guids, n, supply'))
    (hknown : m.guids.get? id = some guid) : n.guids.get? id = some guid := by
  induction ids generalizing m supply guids with
  | nil =>
    cases h
    exact hknown
  | cons id ids ih =>
    obtain ⟨guid, m₁, supply₁, rest, hstep, hrun, rfl⟩ := guidsFor_cons h
    exact ih hrun (get?_guidFor_of_some hstep hknown)

/-- What was given once is what the map has at the end. -/
theorem gives_guidsFor (h : m.guidsFor supply ids = (guids, n, supply')) : n.Gives ids guids := by
  induction ids generalizing m supply guids with
  | nil =>
    cases h
    rfl
  | cons id ids ih =>
    obtain ⟨guid, m₁, supply₁, rest, hstep, hrun, rfl⟩ := guidsFor_cons h
    have hgiven : m₁.guids.get? id = some guid := by rw [get?_guidFor hstep, if_pos rfl]
    have hrest : ids.map n.guids.get? = rest.map some := ih hrun
    show n.guids.get? id :: ids.map n.guids.get? = some guid :: rest.map some
    rw [get?_guidsFor_of_some hrun hgiven, hrest]

theorem distinct_guidsFor (h : m.guidsFor supply ids = (guids, n, supply'))
    (hfresh : supply.FreshFor m) (hdistinct : m.Distinct) : n.Distinct := by
  induction ids generalizing m supply guids with
  | nil =>
    cases h
    exact hdistinct
  | cons id ids ih =>
    obtain ⟨guid, m₁, supply₁, rest, hstep, hrun, rfl⟩ := guidsFor_cons h
    exact ih hrun (freshFor_guidFor hstep hfresh) (distinct_guidFor hstep hfresh hdistinct)

theorem mem_keys_guidsFor (h : m.guidsFor supply ids = (guids, n, supply')) (other : String) :
    other ∈ n.guids.keys ↔ other ∈ m.guids.keys ++ ids := by
  induction ids generalizing m supply guids with
  | nil =>
    cases h
    simp
  | cons id ids ih =>
    obtain ⟨guid, m₁, supply₁, rest, hstep, hrun, rfl⟩ := guidsFor_cons h
    have hone : other ∈ m₁.guids.keys ↔ other = id ∨ other ∈ m.guids.keys := by
      rw [StringMap.mem_keys, StringMap.mem_keys, StringMap.contains, StringMap.contains,
        get?_guidFor hstep]
      split
      · next heq => simp [heq]
      · next hne => simp [hne]
    rw [ih hrun, List.mem_append, hone, List.mem_append, List.mem_cons]
    tauto

/-- There are as many entries as ids that were there or asked for. -/
theorem size_guidsFor (h : m.guidsFor supply ids = (guids, n, supply')) :
    n.size = (m.guids.keys ++ ids).toFinset.card := by
  have hkeys : n.guids.keys.toFinset = (m.guids.keys ++ ids).toFinset := by
    ext other
    rw [List.mem_toFinset, List.mem_toFinset]
    exact mem_keys_guidsFor h other
  have hnodup : n.guids.keys.Nodup := n.guids.pairwise_keys.imp fun hlt => String.ne_of_lt hlt
  rw [← hkeys, List.toFinset_card_of_nodup hnodup]
  exact (List.length_map _).symm

/-- The last of several requests is a request to the map as the others have left it. -/
theorem guidsFor_append_singleton (m : GuidMap) (supply : GuidSupply) (ids : List String)
    (id : String) :
    (m.guidsFor supply (ids ++ [id])).2 =
      ((m.guidsFor supply ids).2.1.guidFor (m.guidsFor supply ids).2.2 id).2 := by
  induction ids generalizing m supply with
  | nil => rfl
  | cons first ids ih => exact ih _ _

/-- No request changes the GUID of another id. -/
theorem get?_guidsFor_append_singleton (m : GuidMap) (supply : GuidSupply) (ids : List String)
    (hne : other ≠ id) :
    (m.guidsFor supply (ids ++ [id])).2.1.guids.get? other =
      (m.guidsFor supply ids).2.1.guids.get? other := by
  rw [guidsFor_append_singleton]
  exact (get?_guidFor rfl other).trans (if_neg hne)

/-- For known ids, none is drawn. -/
theorem guidsFor_of_known (supply : GuidSupply) (h : ∀ id ∈ ids, id ∈ m.guids.keys) :
    ∃ guids, m.guidsFor supply ids = (guids, m, supply) := by
  induction ids with
  | nil => exact ⟨[], rfl⟩
  | cons id ids ih =>
    obtain ⟨hid, hids⟩ := List.forall_mem_cons.1 h
    obtain ⟨guid, hget⟩ := Option.isSome_iff_exists.1 (StringMap.mem_keys.1 hid)
    obtain ⟨guids, hrun⟩ := ih hids
    refine ⟨guid :: guids, ?_⟩
    unfold guidsFor
    rw [guidFor_of_get? hget]
    dsimp only
    rw [hrun]

/-! ## One run after another -/

/-- A run gives each id the GUID that the map has for it in the end, which is that of the start where
there was one; a request leaves other ids alone, GUIDs stay distinct, and every id has one entry. The
next run, over ids that are known then, gives the same GUIDs, draws none and saves the same. -/
theorem guidsFor_regenerates (hfresh : supply.FreshFor m)
    (hrun : m.guidsFor supply ids = (guids, n, supply')) :
    n.Gives ids guids ∧
    (∀ id guid, m.guids.get? id = some guid → n.guids.get? id = some guid) ∧
    (∀ before id other, other ≠ id →
      (m.guidsFor supply (before ++ [id])).2.1.guids.get? other =
        (m.guidsFor supply before).2.1.guids.get? other) ∧
    (m.Distinct → n.Distinct) ∧
    n.size = (m.guids.keys ++ ids).toFinset.card ∧
    ∀ s s' events, n.save s = (s', .ok (), events) →
      (load s' m.path).1 = .ok n ∧
      (∀ nextSupply again, (∀ id ∈ again, id ∈ m.guids.keys ++ ids) →
        ∃ nextGuids, n.guidsFor nextSupply again = (nextGuids, n, nextSupply) ∧
          n.Gives again nextGuids) ∧
      n.save s' = (s', .ok (), events) := by
  refine ⟨gives_guidsFor hrun, fun id guid => get?_guidsFor_of_some hrun, ?_,
    distinct_guidsFor hrun hfresh, size_guidsFor hrun, ?_⟩
  · intro before id other hne
    exact get?_guidsFor_append_singleton m supply before hne
  · intro s s' events hsave
    refine ⟨?_, fun nextSupply again hagain => ?_, save_save hsave⟩
    · rw [← path_guidsFor hrun]
      exact load_of_save hsave
    · have hknown : ∀ id ∈ again, id ∈ n.guids.keys :=
        fun id hid => (mem_keys_guidsFor hrun id).2 (hagain id hid)
      obtain ⟨nextGuids, hnext⟩ := guidsFor_of_known nextSupply hknown
      exact ⟨nextGuids, hnext, gives_guidsFor hnext⟩

/-- A supply of texts of different lengths. -/
def lengthSupply : GuidSupply :=
  ⟨fun n => String.ofList (List.replicate n 'x'), 0⟩

/-- The one new id adds one entry, and the map is loaded as it was saved. -/
theorem guidsFor_regenerates_glossaryMap :
    ∃ guids n supply', (glossaryMap "guids.json").guidsFor lengthSupply
        ["Customer", "Glossary", "Customer"] = (guids, n, supply') ∧
      n.Gives ["Customer", "Glossary", "Customer"] guids ∧ n.size = 2 ∧
      ∃ s' events, n.save (.empty .unlimited) = (s', .ok (), events) ∧
        (load s' ⟨"guids.json"⟩).1 = .ok n := by
  have hfresh : lengthSupply.FreshFor (glossaryMap "guids.json") := by
    constructor
    · intro i j _ _ heq
      simpa [lengthSupply] using congrArg String.length heq
    · intro i id _ heq
      have hvalue : "5a1c2f0e-93d7-4b86-a0de-7c41b6f2d918" = lengthSupply.guid i := by
        unfold glossaryMap at heq
        rw [StringMap.get?_insert] at heq
        split at heq
        · exact Option.some.inj heq
        · cases heq
      have hmem : '5' ∈ (lengthSupply.guid i).toList := hvalue ▸ by decide +kernel
      simp [lengthSupply] at hmem
  obtain ⟨guids, n, supply', hrun⟩ : ∃ guids n supply', (glossaryMap "guids.json").guidsFor
      lengthSupply ["Customer", "Glossary", "Customer"] = (guids, n, supply') := ⟨_, _, _, rfl⟩
  obtain ⟨hgives, -, -, -, hsize, hnext⟩ := guidsFor_regenerates hfresh hrun
  obtain ⟨s', events, hsave⟩ : ∃ s' events, n.save (.empty .unlimited) = (s', .ok (), events) := by
    cases hrun
    exact ⟨_, _, rfl⟩
  exact ⟨guids, n, supply', hrun, hgives, hsize, s', events, hsave, (hnext _ _ _ hsave).1⟩

end GuidMap

end MetadataArchive
