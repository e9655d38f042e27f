import MetadataArchive.Proofs.Draft.Ends
import MetadataArchive.Proofs.Draft.Instances

/-!
# What the log tells

The log of a session tells what was turned away: reading off the lines on rejected content gives the
reasons for which items were turned away, in their order, and nothing else. The lines before them
follow from the calls and from what the archive lists when they are made. Whoever adds an item is
told so first; of the checks only those of the ends of a relationship type are logged, by the entity
types that are looked up for them.
-/

namespace MetadataArchive

/-! ## Events of computations -/

namespace Traced

variable {α β : Type}

/-- Why a computation came to no value. -/
def rejection? (x : Traced α) : Option Rejection :=
  match x.outcome with
  | .ok _ => none
  | .error r => some r

theorem events_bind_of_ok {x : Traced α} {a : α} (h : x.outcome = .ok a) (f : α → Traced β) :
    (x >>= f).events = x.events ++ (f a).events := by
  show (x.andThen f).events = _
  rw [andThen, h]

theorem events_bind_of_error {x : Traced α} {r : Rejection} (h : x.outcome = .error r)
    (f : α → Traced β) : (x >>= f).events = x.events := by
  show (x.andThen f).events = _
  rw [andThen, h]

/-- A computation that ends with values that log nothing logs what it logs before them. -/
theorem events_bind_of_forall {x : Traced α} {f : α → Traced β} (h : ∀ a, (f a).events = []) :
    (x >>= f).events = x.events := by
  cases hx : x.outcome with
  | ok a => rw [events_bind_of_ok hx, h, List.append_nil]
  | error r => exact events_bind_of_error hx f

theorem events_map (f : α → β) (x : Traced α) : (f <$> x).events = x.events :=
  events_bind_of_forall fun _ => rfl

/-- A check logs nothing, nor does what follows it if that logs nothing. -/
theorem events_ofExcept_bind {x : Except Rejection α} {f : α → Traced β}
    (h : ∀ a, (f a).events = []) : (ofExcept x >>= f).events = [] :=
  events_bind_of_forall h

/-- The rejection is logged last. -/
theorem events_reportingRejection (x : Traced α) :
    x.reportingRejection.events =
      x.events ++ x.reportingRejection.rejection?.toList.map .rejected := by
  unfold rejection?
  rw [outcome_reportingRejection, reportingRejection]
  cases x.outcome <;> simp

end Traced

/-- The event of a look-up. -/
def Subject.retrieving (subject : Subject) (key : String) : Event :=
  match subject with
  | definition kind => .retrievingDefinition kind key
  | instanceOf kind => .retrievingInstance kind key

/-- What is looked up before an item is taken or turned away: the entity types at the ends of a
relationship type, if its identity can be taken, the second one if there is the first. -/
def TypeArchive.endLookUps (a : TypeArchive) : Item → List Event
  | .relationshipDef t =>
    let retrieving := (Subject.definition (.structuralType .entity)).retrieving
    if definitionFault? a.items t ≠ none then []
    else if a.HasEntityType t.end1.entityType.name then
      [retrieving t.end1.entityType.name, retrieving t.end2.entityType.name]
    else [retrieving t.end1.entityType.name]
  | _ => []

namespace Draft

variable {d : Draft}

theorem events_findDefinition {α : Type} [Definition α] (table : KeyedTable α) (name : String) :
    (findDefinition table name).events =
      [(Subject.definition (Definition.kind α)).retrieving name] := by
  rw [findDefinition, Traced.events_log_bind, Traced.events_ofExcept_bind fun _ => ?_]
  · rfl
  · cases table.get? name <;> rfl

theorem events_findInstance {α : Type} (kind : InstanceKind) (table : KeyedTable α)
    (guid : String) :
    (findInstance kind table guid).events = [(Subject.instanceOf kind).retrieving guid] := by
  rw [findInstance, Traced.events_log_bind, Traced.events_ofExcept_bind fun _ => ?_]
  · rfl
  · cases table.get? guid <;> rfl

theorem events_lookUp (d : Draft) (subject : Subject) (key : String) :
    (d.lookUp subject key).events = [subject.retrieving key] := by
  match subject with
  | .definition (.attributeType category) =>
    cases category <;> exact (Traced.events_map _ _).trans (events_findDefinition _ _)
  | .definition (.structuralType category) =>
    cases category <;> exact (Traced.events_map _ _).trans (events_findDefinition _ _)
  | .instanceOf kind =>
    cases kind <;> exact (Traced.events_map _ _).trans (events_findInstance _ _ _)

theorem events_make (d : Draft) (request : InstanceRequest) :
    (d.make request).events =
      [(Subject.definition (.structuralType request.category)).retrieving request.typeName] := by
  cases request <;>
    exact (Traced.events_map _ _).trans
      ((Traced.events_bind_of_forall fun _ => rfl).trans (events_findDefinition _ _))

/-- What follows the check of the identity of a relationship type logs the look-ups. -/
theorem Coherent.events_inspect_relationshipDef (h : d.Coherent) (t : RelationshipDef) :
    (d.inspect (.relationshipDef t)).events =
      (Item.relationshipDef t).adding :: d.archive.endLookUps (.relationshipDef t) := by
  have hidentity := h.checkDefinition_eq .relationshipDef h.indexed.relationshipDefs rfl
    (fun _ => rfl) (fun _ => rfl) t
  rw [inspect, Traced.events_log_bind, hidentity, TypeArchive.endLookUps, items_archive]
  refine congrArg (List.cons _) ?_
  cases hfault : definitionFault? d.items t with
  | some r => rfl
  | none =>
    rw [if_neg (by simp)]
    show (d.findEntityDef t.end1.entityType.name >>= _).events = _
    cases hfind1 : (d.findEntityDef t.end1.entityType.name).outcome with
    | ok entity1 =>
      have hhas : d.archive.HasEntityType t.end1.entityType.name :=
        hasEntityType_archive.2 ⟨entity1, h.outcome_findEntityDef_eq_ok_iff.1 hfind1⟩
      rw [if_pos hhas, Traced.events_bind_of_ok hfind1, Traced.events_bind_of_forall fun _ => ?_]
      · rw [findEntityDef, events_findDefinition, events_findDefinition]
        rfl
      · exact Traced.events_ofExcept_bind fun _ => rfl
    | error r =>
      have hnone : ¬ d.archive.HasEntityType t.end1.entityType.name := by
        intro hhas
        obtain ⟨e, he⟩ := hasEntityType_archive.1 hhas
        rw [h.outcome_findEntityDef_eq_ok_iff.2 he] at hfind1
        cases hfind1
      rw [if_neg hnone, Traced.events_bind_of_error hfind1, findEntityDef, events_findDefinition]
      rfl

theorem Coherent.events_inspect (h : d.Coherent) (item : Item) :
    (d.inspect item).events = item.adding :: d.archive.endLookUps item := by
  cases item with
  | relationshipDef t => exact h.events_inspect_relationshipDef t
  | _ => rfl

theorem rejection?_add (d : Draft) (item : Item) :
    (d.add item).rejection? = (d.inspect item).reportingRejection.rejection? := by
  rw [Traced.rejection?, Traced.rejection?, add_eq, Traced.outcome_map]
  cases (d.inspect item).reportingRejection.outcome <;> rfl

/-- Adding an item logs that it is added, what is looked up, and why it is turned away if it is. -/
theorem Coherent.events_add (h : d.Coherent) (item : Item) :
    (d.add item).events = item.adding ::
      (d.archive.endLookUps item ++ (d.add item).rejection?.toList.map .rejected) := by
  rw [rejection?_add, add_eq, Traced.events_map, Traced.events_reportingRejection,
    h.events_inspect, List.cons_append]

end Draft

/-! ## Sessions -/

/-- What is done with a draft. All else that is asked of one logs nothing. -/
inductive Call where
  | add (item : Item)
  | lookUp (subject : Subject) (key : String)
  | make (request : InstanceRequest)
  | build

namespace Draft

/-- The draft after a call. Only adding items can change it. -/
def after (d : Draft) : Call → Draft
  | .add item => d.tryAdd item
  | _ => d

/-- The events of a call. -/
def eventsOf (d : Draft) : Call → List Event
  | .add item => (d.add item).events
  | .lookUp subject key => (d.lookUp subject key).events
  | .make request => (d.make request).events
  | .build => d.build.events

/-- The reason for which a call turns an item away. Other calls may fail, but turn nothing away. -/
def refusal? (d : Draft) : Call → Option Rejection
  | .add item => (d.add item).rejection?
  | _ => none

/-- What is logged before an item is taken or turned away, and by the other calls. -/
def announcements (d : Draft) : Call → List Event
  | .add item => item.adding :: d.archive.endLookUps item
  | .lookUp subject key => [subject.retrieving key]
  | .make request =>
    [(Subject.definition (.structuralType request.category)).retrieving request.typeName]
  | .build => [d.buildEvent]

/-- The calls of a session that starts with a draft, each with the draft on which it is made. -/
def session (d : Draft) : List Call → List (Draft × Call)
  | [] => []
  | call :: calls => (d, call) :: (d.after call).session calls

/-- The log of a session on a new draft. -/
def log (header : ArchiveProperties) (calls : List Call) : List LogEntry :=
  ((create header).events ++
    ((empty header).session calls).flatMap fun x => x.1.eventsOf x.2).map Event.entry

/-- The reasons for which the calls of a session on a new draft turned items away. -/
def refusals (header : ArchiveProperties) (calls : List Call) : List Rejection :=
  ((empty header).session calls).filterMap fun x => x.1.refusal? x.2

end Draft

/-- Whether a line in the log is about content that is turned away. -/
def LogEntry.isRejection (e : LogEntry) : Bool :=
  e.message = "archive content rejected"

/-- The line in the log for content that is turned away. -/
def Rejection.entry (r : Rejection) : LogEntry :=
  ⟨"archive content rejected", [("error", .text r.message)]⟩

/-- Saying that an item is added says not that it is turned away. -/
theorem Item.isRejection_adding (item : Item) : item.adding.entry.isRejection = false := by
  have hdefinition : ∀ (kind : TypeKind) name guid,
      (Event.addingDefinition kind name guid).entry.isRejection = false := fun kind _ _ => by
    match kind with
    | .attributeType category => cases category <;> rfl
    | .structuralType category => cases category <;> rfl
  cases item with
  | relationshipDef t | patch p | entity e | relationship r => rfl
  | _ => exact hdefinition _ _ _

theorem TypeArchive.exists_retrieving_of_mem_endLookUps {a : TypeArchive} {item : Item} {e : Event}
    (h : e ∈ a.endLookUps item) : ∃ subject key, e = Subject.retrieving subject key := by
  cases item with
  | relationshipDef t =>
    rw [endLookUps] at h
    split at h
    · cases h
    · split at h <;> simp only [List.mem_cons, List.not_mem_nil, or_false] at h
      · rcases h with rfl | rfl
        · exact ⟨_, _, rfl⟩
        · exact ⟨_, _, rfl⟩
      · exact ⟨_, _, h⟩
  | _ => cases h

namespace Draft

variable {d : Draft}

theorem Coherent.after (h : d.Coherent) (call : Call) : (d.after call).Coherent := by
  cases call with
  | add item =>
    show (d.tryAdd item).Coherent
    cases hcheck : d.check item with
    | ok =>
      obtain ⟨hfits, hends⟩ := h.check_eq_ok_iff.1 hcheck
      rw [tryAdd_of_check_eq_ok hcheck]
      exact h.take hfits hends
    | error r =>
      rw [tryAdd_of_check_eq_error hcheck]
      exact h
  | _ => exact h

theorem Coherent.of_mem_session (h : d.Coherent) {calls : List Call} {x : Draft × Call}
    (hx : x ∈ d.session calls) : x.1.Coherent := by
  induction calls generalizing d with
  | nil => cases hx
  | cons call calls ih =>
    rcases List.mem_cons.1 hx with rfl | hx
    · exact h
    · exact ih (h.after call) hx

theorem Coherent.eventsOf_eq (h : d.Coherent) (call : Call) :
    d.eventsOf call = d.announcements call ++ (d.refusal? call).toList.map .rejected := by
  cases call with
  | add item => exact h.events_add item
  | lookUp subject key => exact d.events_lookUp subject key
  | make request => exact d.events_make request
  | build => rfl

/-- Nothing is announced under the name of a rejection. -/
theorem isRejection_of_mem_announcements {call : Call} {e : Event} (h : e ∈ d.announcements call) :
    e.entry.isRejection = false := by
  have hretrieving : ∀ (subject : Subject) key,
      (subject.retrieving key).entry.isRejection = false := fun subject key => by
    cases subject <;> rfl
  cases call with
  | add item =>
    rcases List.mem_cons.1 h with rfl | h
    · exact item.isRejection_adding
    · obtain ⟨subject, key, rfl⟩ := TypeArchive.exists_retrieving_of_mem_endLookUps h
      exact hretrieving subject key
  | lookUp subject key => exact List.mem_singleton.1 h ▸ hretrieving subject key
  | make request => exact List.mem_singleton.1 h ▸ hretrieving _ _
  | build => exact List.mem_singleton.1 h ▸ rfl

/-- The lines on rejected content that a call adds to the log. -/
theorem Coherent.filter_entries_eventsOf (h : d.Coherent) (call : Call) :
    ((d.eventsOf call).map Event.entry).filter LogEntry.isRejection =
      (d.refusal? call).toList.map Rejection.entry := by
  have hannounced : ((d.announcements call).map Event.entry).filter LogEntry.isRejection = [] := by
    rw [List.filter_eq_nil_iff]
    intro entry hentry
    obtain ⟨e, he, rfl⟩ := List.mem_map.1 hentry
    exact Bool.not_eq_true _ ▸ isRejection_of_mem_announcements he
  rw [h.eventsOf_eq, List.map_append, List.filter_append, hannounced, List.nil_append]
  cases d.refusal? call <;> rfl

theorem Coherent.filter_entries_session (h : d.Coherent) (calls : List Call) :
    (((d.session calls).flatMap fun x => x.1.eventsOf x.2).map Event.entry).filter
        LogEntry.isRejection =
      ((d.session calls).filterMap fun x => x.1.refusal? x.2).map Rejection.entry := by
  induction calls generalizing d with
  | nil => rfl
  | cons call calls ih =>
    rw [session, List.flatMap_cons, List.map_append, List.filter_append, ih (h.after call),
      h.filter_entries_eventsOf, List.filterMap_cons]
    cases d.refusal? call <;> rfl

/-- Only items other than patches are turned away. -/
theorem exists_of_refusal?_ne_none {call : Call} (h : d.refusal? call ≠ none) :
    ∃ item, call = .add item ∧ item.kind ≠ .patch := by
  cases call with
  | add item =>
    refine ⟨item, rfl, fun hkind => h ?_⟩
    cases item with
    | patch p => rfl
    | _ => cases hkind
  | _ => exact absurd rfl h

/-- Whatever is called, the lines of the log on rejected content are the reasons for which items
were turned away, one after the other. Each call logs what it announces, and after that why it turns
an item away if it does: a call that adds an item first says so, and announces nothing else but the
entity types that are looked up for the ends of a relationship type. No other call turns anything
away, and no patch is turned away. -/
theorem filter_log_eq_refusals (header : ArchiveProperties) (calls : List Call) :
    (log header calls).filter LogEntry.isRejection = (refusals header calls).map Rejection.entry ∧
      ∀ x ∈ (empty header).session calls,
        x.1.eventsOf x.2 = x.1.announcements x.2 ++ (x.1.refusal? x.2).toList.map .rejected ∧
          (x.1.refusal? x.2 ≠ none → ∃ item, x.2 = .add item ∧ item.kind ≠ .patch) := by
  have h := coherent_empty header
  constructor
  · rw [log, List.map_append, List.filter_append, h.filter_entries_session]
    rfl
  · intro x hx
    exact ⟨(h.of_mem_session hx).eventsOf_eq x.2, exists_of_refusal?_ne_none⟩

/-- The second relationship type is turned away after its ends were looked up. The last look-up
fails as well. -/
example : (log epochHeader
      (hostingCalls.map .add ++ [.lookUp (.instanceOf .entity) "guid-host"])).map LogEntry.message =
    ["creating archive builder", "adding EntityDef", "adding EntityDef", "adding RelationshipDef",
      "retrieving type", "retrieving type", "adding RelationshipDef", "retrieving type",
      "retrieving type", "archive content rejected", "retrieving instance"] := by
  decide +kernel

end Draft

end MetadataArchive
