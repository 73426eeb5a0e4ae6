import AppBuilder.Proofs.Entity.Codec
import AppBuilder.Session.Request

/-!
Reading written requests.

A request is written with the word of its method and the fields of its data, all of them. Whatever
spells what was written is read as the request, method by method (`RequestBody.ofParts?_data`).

Main statement: `Request.ofJson?_toJson`.
-/

namespace AppBuilder

open Json Decode

/-! ### Fields without some names -/

/-- Change the field of a name of an object. -/
def Json.modifyField (name : String) (f : Json → Json) : Json → Json
  | .object fs => .object (fs.map fun e => if e.1 = name then (e.1, f e.2) else e)
  | j => j

/-- An object without the fields of some names. -/
def Json.without (names : List String) : Json → Json
  | .object fs => .object (fs.filter fun e => !names.contains e.1)
  | j => j

/-! ### Free values -/

theorem Dict.map_self {α : Type} (d : Dict α) : (d.map fun _ v => v) = d :=
  ext_get? fun k => by rw [get?_map, Option.map_id_fun', id]

theorem Decode.reads_values {vs : List Json} (canonical : ∀ v ∈ vs, v.IsCanonical) :
    Reads (Decode.list Decode.json) (.array vs) vs := by
  have reads : Reads (Decode.list Decode.json) (.array (vs.map id)) vs :=
    reads_list fun v hv => reads_json (canonical v hv)
  rwa [List.map_id] at reads

theorem Decode.reads_context {d : Dict Json} (canonical : ∀ v ∈ d.values, v.IsCanonical) :
    Reads (Decode.dict Decode.json) (.ofDict d) d := by
  have reads : Reads (Decode.dict Decode.json) (.ofDict (d.map fun _ v => v)) d :=
    reads_dict fun k v held => reads_json (canonical v (Dict.mem_values_of_get? held))
  rwa [d.map_self] at reads

/-! ### Data -/

namespace TreeRequest

/-- The values of the tree and of the editor are canonical. -/
structure Typed (r : TreeRequest) : Prop where
  tree : r.tree.Typed
  widgets : r.widgets.IsCanonical
  theme : r.theme.IsCanonical

variable {r : TreeRequest} (typed : r.Typed) (unreserved : r.tree.Unreserved)
include typed unreserved

theorem distinct_fields : (Json.object r.fields).Distinct := by
  have tree := DataTree.distinct_toJson unreserved typed.tree
  have widgets := typed.widgets.distinct
  have theme := typed.theme.distinct
  simp [fields, Distinct, DistinctFields, tree, widgets, theme]

theorem reads : Reads ofJson? (.object r.fields) r := by
  refine reads_record (by simp [fields]) fun fs spells => ?_
  refine (bind_named (spells.required rfl (DataTree.reads unreserved typed.tree))).trans ?_
  refine (bind_named (spells.defaulted rfl (reads_json typed.widgets))).trans ?_
  refine (bind_named (spells.defaulted rfl (reads_json typed.theme))).trans ?_
  exact bind_named (spells.defaulted rfl (reads_bool r.recorded))

end TreeRequest

namespace TriggerRequest

/-- The values of the tree, of the arguments and of the context are canonical. -/
structure Typed (r : TriggerRequest) : Prop where
  tree : r.tree.Typed
  arguments : ∀ v ∈ r.arguments, v.IsCanonical
  context : ∀ v ∈ r.context.values, v.IsCanonical

variable {r : TriggerRequest} (typed : r.Typed) (unreserved : r.tree.Unreserved)
include typed unreserved

theorem distinct_fields : (Json.object r.fields).Distinct := by
  have tree := DataTree.distinct_toJson unreserved typed.tree
  have arguments : (Json.array r.arguments).Distinct :=
    distinct_array.mpr fun v hv => (typed.arguments v hv).distinct
  have context : (Json.ofDict r.context).Distinct :=
    distinct_object.mpr ⟨r.context.ordered.nodup, fun f hf =>
      (typed.context f.2 (List.mem_map_of_mem hf)).distinct⟩
  simp only [fields, distinct_object, List.forall_mem_cons]
  exact ⟨by simp, arguments, tree, trivial, context, List.forall_mem_nil _⟩

theorem reads : Reads ofJson? (.object r.fields) r := by
  refine reads_record (by simp [fields]) fun fs spells => ?_
  refine (bind_named (spells.required rfl (DataTree.reads unreserved typed.tree))).trans ?_
  refine (bind_named (spells.required rfl (reads_string r.trigger))).trans ?_
  refine (bind_named (spells.defaulted rfl (reads_values typed.arguments))).trans ?_
  exact bind_named (spells.defaulted rfl (reads_context typed.context))

end TriggerRequest

/-! ### Bodies -/

namespace RequestBody

/-- Versions have 32 bits, and free values are canonical. -/
def Typed : RequestBody → Prop
  | evalTree r => r.Typed
  | evalTrigger r => r.Typed
  | actionBindings _ params => params.IsCanonical
  | setVersion version => ∀ n ∈ version, n < twoTo 32
  | recordEntity snapshot _ _ => snapshot.IsCanonical
  | _ => True

/-- The tree that comes with a body. -/
def tree? : RequestBody → Option DataTree
  | evalTree r => some r.tree
  | evalTrigger r => some r.tree
  | _ => none

theorem reads_entity (entity : Option String) :
    Reads entityOfJson? (.object [("entityId", .orNull (entity.map .string))]) entity :=
  reads_record (by simp) fun _ spells => spells.defaulted rfl
    (reads_optional fun _ _ => ⟨trivial, Json.noConfusion, rfl⟩)

theorem reads_version {version : Option Nat} (small : ∀ n ∈ version, n < twoTo 32) :
    Reads (Decode.record (Decode.omittable "version" Decode.nat32))
      (.object [("version", .orNull (version.map .nat))]) version :=
  reads_record (by simp) fun _ spells => spells.defaulted rfl
    (reads_optional fun n hn => ⟨trivial, Json.noConfusion,
      reads_nat32 (small n hn) _ (.refl trivial)⟩)

/-- Method and data of a body are read as that body. -/
theorem ofParts?_data {b : RequestBody} (typed : b.Typed)
    (unreserved : ∀ t ∈ b.tree?, t.Unreserved) {data : Option Json}
    (spells : Option.Rel Spells data (b.data?.map .object)) : ofParts? b.method data = some b := by
  cases b with
  | setup | clearCache =>
    cases spells
    rfl
  | evalTree r =>
    cases spells with
    | some spells => simp [ofParts?, method, TreeRequest.reads typed (unreserved _ rfl) _ spells]
  | evalTrigger r =>
    cases spells with
    | some spells => simp [ofParts?, method, TriggerRequest.reads typed (unreserved _ rfl) _ spells]
  | actionBindings bindings params =>
    cases spells with
    | some spells =>
      refine reads_record (by simp) (fun fs spells => ?_) _ spells
      refine (bind_named (spells.required rfl (reads_strings bindings))).trans ?_
      exact bind_named (spells.defaulted rfl (reads_json typed))
  | undo entity | redo entity =>
    cases spells with
    | some spells => simp [ofParts?, method, reads_entity entity _ spells]
  | setVersion version =>
    cases spells with
    | some spells => simp [ofParts?, method, reads_version typed _ spells]
  | expression text isTrigger =>
    cases spells with
    | some spells =>
      refine reads_record (by simp) (fun fs spells => ?_) _ spells
      refine (bind_named (spells.required rfl (reads_string text))).trans ?_
      exact bind_named (spells.defaulted rfl (reads_bool isTrigger))
  | recordEntity snapshot id kind =>
    cases spells with
    | some spells =>
      refine reads_record (by simp) (fun fs spells => ?_) _ spells
      refine (bind_named (spells.required rfl (reads_json typed))).trans ?_
      refine (bind_named (spells.required rfl (reads_string id))).trans ?_
      exact bind_named (spells.required rfl (reads_string kind))

theorem distinct_data {b : RequestBody} (typed : b.Typed)
    (unreserved : ∀ t ∈ b.tree?, t.Unreserved) :
    ∀ fields ∈ b.data?, (Json.object fields).Distinct := by
  cases b with
  | setup | clearCache => exact fun _ h => nomatch h
  | evalTree r =>
    rintro _ ⟨⟩
    exact TreeRequest.distinct_fields typed (unreserved _ rfl)
  | evalTrigger r =>
    rintro _ ⟨⟩
    exact TriggerRequest.distinct_fields typed (unreserved _ rfl)
  | actionBindings bindings params =>
    rintro _ ⟨⟩
    have params : params.Distinct := IsCanonical.distinct typed
    simp [Distinct, DistinctFields, (show (Json.strings bindings).Distinct from distinct_strings _),
      params]
  | undo entity | redo entity =>
    rintro _ ⟨⟩
    cases entity <;> simp [Json.orNull, Distinct, DistinctFields]
  | setVersion version =>
    rintro _ ⟨⟩
    cases version <;> simp [Json.orNull, Json.nat, Json.int, Distinct, DistinctFields]
  | expression text isTrigger =>
    rintro _ ⟨⟩
    simp [Distinct, DistinctFields]
  | recordEntity snapshot id kind =>
    rintro _ ⟨⟩
    have snapshot : snapshot.Distinct := IsCanonical.distinct typed
    simp [Distinct, DistinctFields, snapshot]

end RequestBody

/-! ### Requests -/

namespace Request

/-- The fields of a written request. -/
def fields (r : Request) : List (String × Json) :=
  [("method", .string r.body.method.name)] ++
    (r.body.data?.map fun fields => ("requestData", Json.object fields)).toList ++
    [("requestId", .string r.id)]

theorem nodup_fields (r : Request) : (r.fields.map Prod.fst).Nodup := by
  unfold fields
  cases r.body.data? <;> simp

theorem lookup_data (r : Request) :
    Entries.lookup "requestData" r.fields = r.body.data?.map .object := by
  unfold fields
  cases r.body.data? <;> simp [Entries.lookup]

theorem lookup_id (r : Request) : Entries.lookup "requestId" r.fields = some (.string r.id) := by
  unfold fields
  cases r.body.data? <;> simp [Entries.lookup]

/-- A summary leaves out the bulky fields of the data. -/
theorem summary_eq (r : Request) : r.summary =
    r.toJson.modifyField "requestData" (·.without ["unevalTree", "dataTree", "widgets"]) := by
  unfold summary toJson withData
  cases r.body.data? <;> simp [Json.modifyField, Json.without, bulkyFields]

section Reads

variable {r : Request} (typed : r.body.Typed) (unreserved : ∀ t ∈ r.body.tree?, t.Unreserved)
include typed unreserved

theorem distinct_toJson : r.toJson.Distinct := by
  have data := RequestBody.distinct_data typed unreserved
  refine distinct_object.mpr ⟨r.nodup_fields, fun f hf => ?_⟩
  rcases List.mem_append.mp hf with hf | hf
  · rcases List.mem_append.mp hf with hf | hf
    · obtain rfl := List.mem_singleton.mp hf
      trivial
    · obtain ⟨fields, written, rfl⟩ := Option.map_eq_some_iff.mp (Option.mem_toList.mp hf)
      exact data fields written
  · obtain rfl := List.mem_singleton.mp hf
    trivial

theorem reads : Reads ofJson? r.toJson r := by
  refine reads_fields r.nodup_fields fun fs (spells : SpellsFields fs r.fields) => ?_
  have method : Reads Method.ofJson? (.string r.body.method.name) r.body.method :=
    reads_word (by cases r.body.method <;> rfl)
  obtain ⟨data, taken, same⟩ := spells.take "requestData"
  rw [lookup_data] at same
  have body : RequestBody.reader (.named fs) = some (r.body, .named fs) := by
    refine (bind_named (spells.required rfl method)).trans ?_
    refine (bind_named taken).trans ?_
    rw [RequestBody.ofParts?_data typed unreserved same]
    rfl
  exact (bind_named (spells.required (lookup_id r) (reads_string r.id))).trans (bind_named body)

end Reads

/-- What is written for a request is read as the very request, in whatever order fields come, and
its summary is the same value without the bulky fields of its data. -/
theorem ofJson?_toJson (r : Request) (typed : r.body.Typed)
    (unreserved : ∀ t ∈ r.body.tree?, t.Unreserved) :
    ofJson? r.toJson = some r ∧
    ofJson? r.toJson.canonical = some r ∧
    (∀ j : Json, j.Distinct → j.canonical = r.toJson.canonical → ofJson? j = some r) ∧
    r.summary =
      r.toJson.modifyField "requestData" (·.without ["unevalTree", "dataTree", "widgets"]) :=
  have reads := reads typed unreserved
  ⟨reads _ (.refl (distinct_toJson typed unreserved)), reads _ (spells_canonical _),
    fun _ distinct same => reads _ ⟨distinct, same⟩, r.summary_eq⟩

/-- A request to run a trigger of a button. -/
def clickRequest : Request :=
  ⟨"7", .evalTrigger ⟨.insert .empty "B" ((Entity.ofKind .widget).setTrigger "onClick" "run"),
    "run", [.null], .insert .empty "self" (.object [("a", .null), ("b", .bool true)])⟩⟩

theorem ofJson?_toJson_click : clickRequest.body.Typed ∧
    (∀ t ∈ clickRequest.body.tree?, t.Unreserved) ∧
    ofJson? clickRequest.toJson.canonical = some clickRequest := by
  have typed : clickRequest.body.Typed := by
    refine ⟨fun e he => ?_, fun v hv => ?_, fun v hv => ?_⟩
    · obtain rfl := List.mem_singleton.mp he
      intro v hv
      obtain rfl := List.mem_singleton.mp hv
      rfl
    · obtain rfl := List.mem_singleton.mp hv
      rfl
    · obtain rfl := List.mem_singleton.mp hv
      rfl
  have unreserved : ∀ t ∈ clickRequest.body.tree?, t.Unreserved := by
    rintro t ⟨⟩
    decide +kernel
  exact ⟨typed, unreserved, (ofJson?_toJson clickRequest typed unreserved).2.1⟩

end Request

end AppBuilder
