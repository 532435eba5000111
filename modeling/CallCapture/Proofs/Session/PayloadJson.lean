import CallCapture.Proofs.Json.RoundTrip
import CallCapture.Proofs.Json.Shapes
import CallCapture.Session.Request

/-!
Requests survive their JSON form, whether the optional fields are there or not.
-/

namespace CallCapture

namespace Description

theorem toJson_legible (description : Description) : description.toJson.Legible := by
  apply JsonTree.Legible.record
  obtain ⟨moduleName, className, methodName, filter, parameterTypes⟩ := description
  cases parameterTypes with
  | none =>
      simp only [Option.map_none, Option.toList_none, List.append_nil, List.forall_mem_cons]
      exact ⟨.text _, .text _, .text _, .bool _, by simp⟩
  | some types =>
      simp only [Option.map_some, Option.toList_some, List.cons_append, List.nil_append,
        List.forall_mem_cons]
      exact ⟨.text _, .text _, .text _, .bool _, .texts types, by simp⟩

theorem toJson_slots (description : Description) :
    description.toJson.slots fieldNames =
      some [some (.text description.moduleName), some (.text description.className),
        some (.text description.methodName), some (.bool description.filterByParameters),
        description.parameterTypes.map JsonTree.texts] := by
  obtain ⟨moduleName, className, methodName, filter, parameterTypes⟩ := description
  rw [toJson, JsonTree.slots_record]
  · cases parameterTypes with
    | none => simp [fieldNames, List.lookup_cons]
    | some types => simp [fieldNames, List.lookup_cons]
  · cases parameterTypes with
    | none => simp
    | some types => simp

/-- Also a list of no parameter types is told from a list that is absent. -/
theorem ofJson?_toJson (description : Description) :
    ofJson? description.toJson = some description := by
  have slots := description.toJson_slots
  obtain ⟨moduleName, className, methodName, filter, parameterTypes⟩ := description
  rw [ofJson?, slots]
  cases parameterTypes with
  | none => rfl
  | some types =>
      have given : JsonTree.optional? (JsonTree.list? JsonTree.text?) (JsonTree.texts types) =
          some (some types) :=
        congrArg (Option.map some) (JsonTree.list?_texts types)
      simp only [Option.map_some, JsonTree.orDefault, given, bind, Option.bind_some]
      rfl

end Description

namespace RequestPayload

theorem toJson_legible (payload : RequestPayload) : payload.toJson.Legible := by
  apply JsonTree.Legible.record
  obtain ⟨methods, duration⟩ := payload
  have described : (JsonTree.array (methods.map Description.toJson)).Legible := by
    apply JsonTree.Legible.array
    intro item member
    obtain ⟨description, _, same⟩ := List.mem_map.mp member
    rw [← same]
    exact description.toJson_legible
  cases duration with
  | none =>
      simp only [Option.map_none, Option.toList_none, List.append_nil, List.forall_mem_cons]
      exact ⟨described, by simp⟩
  | some text =>
      simp only [Option.map_some, Option.toList_some, List.cons_append, List.nil_append,
        List.forall_mem_cons]
      exact ⟨described, .text text, by simp⟩

theorem toJson_slots (payload : RequestPayload) :
    payload.toJson.slots ["methods", "duration"] =
      some [some (.array (payload.methods.map Description.toJson)),
        payload.duration.map JsonTree.text] := by
  obtain ⟨methods, duration⟩ := payload
  rw [toJson, JsonTree.slots_record]
  · cases duration with
    | none => simp [List.lookup_cons]
    | some text => simp [List.lookup_cons]
  · cases duration with
    | none => simp
    | some text => simp

theorem ofJson?_toJson (payload : RequestPayload) : ofJson? payload.toJson = some payload := by
  have slots := payload.toJson_slots
  obtain ⟨methods, duration⟩ := payload
  have described : JsonTree.list? Description.ofJson?
      (.array (methods.map Description.toJson)) = some methods :=
    JsonTree.list?_map Description.ofJson?_toJson methods
  rw [ofJson?, slots]
  simp only [JsonTree.orDefault, described, bind, Option.bind_some]
  cases duration with
  | none => rfl
  | some text => rfl

/-- A request is read back from the bytes of its JSON text. -/
theorem parseBytes?_print (payload : RequestPayload) :
    (JsonTree.parseBytes? (Utf8.encode payload.toJson.print)).bind ofJson? = some payload := by
  rw [JsonTree.parseBytes?_print payload.toJson_legible, Option.bind_some, payload.ofJson?_toJson]

end RequestPayload

end CallCapture
