import CallCapture.Capture.Instrumented

/-!
Lookups in the cache of captured methods: what was published first under an id stands under it.
-/

namespace CallCapture

namespace MethodCache

variable {cache : MethodCache}

theorem get?_id {id : UInt64} {entry : Instrumented} (found : cache.get? id = some entry) :
    entry.id = id := by
  simpa using List.find?_some found

theorem get?_insert (cache : MethodCache) (entry : Instrumented) (id : UInt64) :
    (cache.insert entry).2.get? id = (cache.get? id).or ([entry].find? (·.id == id)) := by
  cases taken : cache.get? entry.id with
  | none =>
      simp only [insert, taken]
      exact List.find?_append
  | some other =>
      simp only [insert, taken]
      by_cases same : entry.id = id
      · rw [← same, taken, Option.some_or]
      · simp [same]

/-- Nothing that is published replaces what stands, and of several entries the first counts. -/
theorem get?_publish (cache : MethodCache) (entries : List Instrumented) (id : UInt64) :
    (cache.publish entries).2.get? id = (cache.get? id).or (entries.find? (·.id == id)) := by
  induction entries generalizing cache with
  | nil => simp [publish]
  | cons entry rest ih =>
      calc ((cache.insert entry).2.publish rest).2.get? id
        _ = ((cache.get? id).or ([entry].find? (·.id == id))).or (rest.find? (·.id == id)) := by
          rw [ih, get?_insert]
        _ = (cache.get? id).or ((entry :: rest).find? (·.id == id)) := by
          rw [Option.or_assoc, ← List.find?_append, List.singleton_append]

/-- Entries whose ids are all different, also from those that stand, are published as they are. -/
theorem publish_of_distinct (cache : MethodCache) {entries : List Instrumented}
    (distinct : ((cache.entries ++ entries).map Instrumented.id).Nodup) :
    cache.publish entries = (entries, ⟨cache.entries ++ entries⟩) := by
  induction entries generalizing cache with
  | nil => simp [publish]
  | cons entry rest ih =>
      have fresh : cache.get? entry.id = none := by
        apply List.find?_eq_none.mpr
        intro other standing same
        rw [List.map_append, List.nodup_append] at distinct
        have apart := distinct.2.2 other.id (List.mem_map_of_mem standing) entry.id
          (List.mem_map_of_mem List.mem_cons_self)
        exact apart (beq_iff_eq.mp same)
      have inserted : (cache.insert entry).2 = ⟨cache.entries ++ [entry]⟩ := by
        simp only [insert, fresh]
      have found : (cache.insert entry).2.get? entry.id = some entry := by
        rw [get?_insert, fresh]
        simp
      have published := ih (cache.insert entry).2 (by
        rw [inserted, List.append_assoc]
        exact distinct)
      simp only [publish, published, found, Option.getD_some]
      rw [inserted, List.append_assoc, List.singleton_append]

/-- Each entry is answered by one of the same id. -/
theorem publish_ids (cache : MethodCache) (entries : List Instrumented) :
    (cache.publish entries).1.map Instrumented.id = entries.map Instrumented.id := by
  induction entries generalizing cache with
  | nil => rfl
  | cons entry rest ih =>
      have standing : (((cache.insert entry).2.get? entry.id).getD entry).id = entry.id := by
        cases found : (cache.insert entry).2.get? entry.id with
        | none => rfl
        | some other => exact get?_id found
      simp only [publish, List.map_cons, standing, ih]

/-- After methods were published into an empty cache, an id finds the first that has it. -/
theorem get?_populate_empty (limit : Nat) (methods : List ResolvedMethod) (id : UInt64) :
    (empty.populate limit methods).2.get? id =
      (methods.find? (·.id == id)).map (Instrumented.build limit) := by
  rw [populate, get?_publish, List.find?_map]
  rfl

theorem populate_ids (cache : MethodCache) (limit : Nat) (methods : List ResolvedMethod) :
    (cache.populate limit methods).1.map Instrumented.id = methods.map ResolvedMethod.id := by
  rw [populate, publish_ids, List.map_map]
  rfl

end MethodCache

end CallCapture
