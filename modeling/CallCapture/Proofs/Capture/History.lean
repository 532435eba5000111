import CallCapture.Proofs.Capture.Cache

/-!
Runs of operations on the cache of captured methods. Under an id stands the entry that was offered
first since the cache was dropped last, and everybody who publishes under that id is given it.
-/

namespace CallCapture

inductive CacheOperation where
  /-- `held` is the reference to the entry that the caller has, if it was not made for this. -/
  | insert (entry : Instrumented) (held : Option Nat)
  | populate (limit : Nat) (methods : List ResolvedMethod)
  | get (id : UInt64)
  | clear

/-- What an operation answers, in terms of entries or of references to them. -/
inductive CacheAnswer (Entry : Type) where
  | inserted (published : Bool)
  | populated (entries : List Entry)
  | got (entry : Option Entry)
  | cleared
deriving DecidableEq, Repr

namespace CacheOperation

/-- The entries that the operation makes and offers to the cache. -/
def offers : CacheOperation → List Instrumented
  | .insert entry _ => [entry]
  | .populate limit methods => methods.map (Instrumented.build limit)
  | .get _ | .clear => []

def offeredAfter (offered : List Instrumented) (operation : CacheOperation) :
    List Instrumented :=
  match operation with
  | .clear => []
  | .insert _ _ | .populate _ _ | .get _ => offered ++ operation.offers

/-- All entries offered since the cache was cleared last, in order. -/
def offered (operations : List CacheOperation) : List Instrumented :=
  operations.foldl offeredAfter []

end CacheOperation

namespace MethodCache

variable {cache : MethodCache}

def perform (cache : MethodCache) : CacheOperation → CacheAnswer Instrumented × MethodCache
  | .insert entry _ =>
      let (published, next) := cache.insert entry
      (.inserted published, next)
  | .populate limit methods =>
      let (entries, next) := cache.populate limit methods
      (.populated entries, next)
  | .get id => (.got (cache.get? id), cache)
  | .clear => (.cleared, empty)

def run (cache : MethodCache) (operations : List CacheOperation) : MethodCache :=
  operations.foldl (fun cache operation => (cache.perform operation).2) cache

/-! ### One operation -/

/-- The answer to an insertion says whether the entry stands under its id from then on. -/
theorem get?_insert_eq (cache : MethodCache) (entry : Instrumented) (id : UInt64) :
    (cache.insert entry).2.get? id =
      if (cache.insert entry).1 = true ∧ id = entry.id then some entry else cache.get? id := by
  rw [get?_insert]
  cases taken : cache.get? entry.id with
  | some other =>
      simp only [insert, taken, Bool.false_eq_true, false_and, if_false]
      by_cases same : entry.id = id
      · rw [← same, taken, Option.some_or]
      · simp [same]
  | none =>
      simp only [insert, taken, true_and]
      by_cases same : id = entry.id
      · simp [same, taken]
      · simp [same, Ne.symm same]

theorem insert_iff (cache : MethodCache) (entry : Instrumented) :
    (cache.insert entry).1 = true ↔ cache.get? entry.id = none := by
  cases taken : cache.get? entry.id <;> simp [insert, taken]

theorem get?_insert_own (cache : MethodCache) (entry : Instrumented) :
    (cache.insert entry).2.get? entry.id = some ((cache.get? entry.id).getD entry) := by
  rw [get?_insert]
  cases cache.get? entry.id <;> simp

theorem publish_answers (cache : MethodCache) (entries : List Instrumented) :
    (cache.publish entries).1.map some =
      entries.map fun entry => (cache.publish entries).2.get? entry.id := by
  induction entries generalizing cache with
  | nil => rfl
  | cons entry rest ih =>
      -- What stands under the id of the first entry is not displaced by the others.
      have standing := get?_insert_own cache entry
      have remains : ((cache.insert entry).2.publish rest).2.get? entry.id =
          (cache.insert entry).2.get? entry.id := by
        rw [get?_publish, standing, Option.some_or]
      rw [List.map_cons, publish, List.map_cons, ih, remains, standing]
      rfl

theorem populate_answers (cache : MethodCache) (limit : Nat) (methods : List ResolvedMethod) :
    (cache.populate limit methods).1.map some =
      methods.map fun resolved => (cache.populate limit methods).2.get? resolved.id := by
  rw [populate, publish_answers, List.map_map]
  rfl

/-! ### Runs -/

theorem get?_perform {offered : List Instrumented}
    (stands : ∀ id, cache.get? id = offered.find? (·.id == id)) (operation : CacheOperation)
    (id : UInt64) :
    (cache.perform operation).2.get? id =
      (CacheOperation.offeredAfter offered operation).find? (·.id == id) := by
  cases operation with
  | insert entry held =>
      rw [perform, get?_insert, stands, ← List.find?_append]
      rfl
  | populate limit methods =>
      rw [perform, populate, get?_publish, stands, ← List.find?_append]
      rfl
  | get other => simp [perform, stands, CacheOperation.offeredAfter, CacheOperation.offers]
  | clear => rfl

theorem get?_run {offered : List Instrumented}
    (stands : ∀ id, cache.get? id = offered.find? (·.id == id)) (operations : List CacheOperation)
    (id : UInt64) :
    (cache.run operations).get? id =
      (operations.foldl CacheOperation.offeredAfter offered).find? (·.id == id) := by
  induction operations generalizing cache offered with
  | nil => exact stands id
  | cons operation rest ih => exact ih (get?_perform stands operation)

/-- No two entries have the same id. -/
def Distinct (cache : MethodCache) : Prop :=
  (cache.entries.map Instrumented.id).Nodup

theorem distinct_empty : empty.Distinct :=
  List.nodup_nil

theorem Distinct.insert (distinct : cache.Distinct) (entry : Instrumented) :
    (cache.insert entry).2.Distinct := by
  cases taken : cache.get? entry.id with
  | some other => simpa only [MethodCache.insert, taken] using distinct
  | none =>
      have fresh : ∀ other ∈ cache.entries, other.id ≠ entry.id := by
        simpa [get?, List.find?_eq_none] using taken
      have apart : ∀ id ∈ cache.entries.map Instrumented.id, ∀ last ∈ [entry.id], id ≠ last := by
        simpa using fresh
      simp only [MethodCache.insert, taken, Distinct, List.map_append, List.map_cons, List.map_nil]
      exact List.nodup_append.mpr ⟨distinct, by simp, apart⟩

theorem Distinct.publish (distinct : cache.Distinct) (entries : List Instrumented) :
    (cache.publish entries).2.Distinct := by
  induction entries generalizing cache with
  | nil => exact distinct
  | cons entry rest ih => exact ih (distinct.insert entry)

theorem Distinct.run (distinct : cache.Distinct) (operations : List CacheOperation) :
    (cache.run operations).Distinct := by
  induction operations generalizing cache with
  | nil => exact distinct
  | cons operation rest ih =>
      apply ih
      cases operation with
      | insert entry held => exact distinct.insert entry
      | populate limit methods => exact distinct.publish _
      | get id => exact distinct
      | clear => exact distinct_empty

theorem mem_ids_iff (cache : MethodCache) (id : UInt64) :
    id ∈ cache.entries.map Instrumented.id ↔ cache.get? id ≠ none := by
  simp [get?, List.find?_eq_none]

/-- What a run leaves in the cache, and what each kind of operation does to that. -/
structure FirstOffered (operations : List CacheOperation) : Prop where
  stands : ∀ id, (empty.run operations).get? id =
    (CacheOperation.offered operations).find? (·.id == id)
  /-- An entry is published just if its id is free, and nothing else changes. -/
  inserts : ∀ entry, (((empty.run operations).insert entry).1 = true ↔
      (empty.run operations).get? entry.id = none) ∧
    ∀ id, ((empty.run operations).insert entry).2.get? id =
      if ((empty.run operations).insert entry).1 = true ∧ id = entry.id then some entry
      else (empty.run operations).get? id
  populates : ∀ limit methods, ((empty.run operations).populate limit methods).1.map some =
    methods.map fun resolved =>
      ((empty.run operations).populate limit methods).2.get? resolved.id
  counted : ∃ ids : List UInt64, ids.Nodup ∧
    (∀ id, id ∈ ids ↔ (empty.run operations).get? id ≠ none) ∧
    (empty.run operations).size = ids.length

theorem run_firstOffered (operations : List CacheOperation) : FirstOffered operations where
  stands := get?_run (fun _ => rfl) operations
  inserts entry := ⟨insert_iff _ entry, get?_insert_eq _ entry⟩
  populates := populate_answers _
  counted := by
    have distinct : (empty.run operations).Distinct := distinct_empty.run operations
    exact ⟨_, distinct, mem_ids_iff _, (List.length_map _).symm⟩

end MethodCache

end CallCapture
