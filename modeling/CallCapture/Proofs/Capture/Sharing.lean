import CallCapture.Capture.Shared
import CallCapture.Proofs.Capture.History
import Mathlib.Data.List.Basic
import Mathlib.Data.List.Find

/-!
References to captured methods. The cache of references holds just what the cache of entries does,
all who ask for one id between two clearings are given one reference, and an entry that somebody
refers to stays as it is.
-/

namespace CallCapture

def CacheAnswer.map {α β : Type} (change : α → β) : CacheAnswer α → CacheAnswer β
  | .inserted published => .inserted published
  | .populated entries => .populated (entries.map change)
  | .got entry => .got (entry.map change)
  | .cleared => .cleared

namespace SharedCache

variable {shared : SharedCache} {id : UInt64} {reference : Nat} {entry : Instrumented}
  {placed : List (Instrumented × Nat)}

def perform (shared : SharedCache) : CacheOperation → CacheAnswer Nat × SharedCache
  | .insert entry held =>
      let (reference, known) := shared.refer entry held
      let (published, next) := known.insert entry.id reference
      (.inserted published, next)
  | .populate limit methods =>
      let (references, next) := shared.populate limit methods
      (.populated references, next)
  | .get id => (.got (shared.get? id), shared)
  | .clear => (.cleared, shared.clear)

def run (shared : SharedCache) (operations : List CacheOperation) : SharedCache :=
  operations.foldl (fun shared operation => (shared.perform operation).2) shared

/-- Every reference in the cache is one to an entry in memory. -/
def Allocated (shared : SharedCache) : Prop :=
  ∀ reference ∈ shared.published, reference < shared.memory.length

/-- The entries lie at the places that they are said to lie at. -/
def Lies (shared : SharedCache) (placed : List (Instrumented × Nat)) : Prop :=
  ∀ place ∈ placed, shared.memory[place.2]? = some place.1

/-! ### Looking up -/

theorem get?_toCache (shared : SharedCache) (id : UInt64) :
    shared.toCache.get? id = (shared.get? id).bind (shared.memory[·]?) :=
  List.find?_filterMap

theorem entry_of_get? (found : shared.get? id = some reference) :
    ∃ entry, shared.memory[reference]? = some entry ∧ entry.id = id := by
  have named := List.find?_some found
  simpa [Option.any_eq_true] using named

theorem get?_toCache_none_iff (shared : SharedCache) (id : UInt64) :
    shared.toCache.get? id = none ↔ shared.get? id = none := by
  rw [get?_toCache]
  cases found : shared.get? id with
  | none => simp
  | some reference =>
      obtain ⟨entry, lies, _⟩ := entry_of_get? found
      simp [lies]

/-! ### Publishing -/

theorem memory_insert (shared : SharedCache) (id : UInt64) (reference : Nat) :
    (shared.insert id reference).2.memory = shared.memory := by
  unfold insert
  split <;> rfl

theorem memory_publish (shared : SharedCache) (placed : List (Instrumented × Nat)) :
    (shared.publish placed).2.memory = shared.memory := by
  induction placed generalizing shared with
  | nil => rfl
  | cons place rest ih => exact (ih _).trans (memory_insert _ _ _)

theorem Lies.insert (lies : shared.Lies placed) (id : UInt64) (reference : Nat) :
    (shared.insert id reference).2.Lies placed := by
  intro place among
  rw [memory_insert]
  exact lies place among

theorem get?_insert_of_found (found : shared.get? id = some reference) (other : UInt64)
    (next : Nat) : (shared.insert other next).2.get? id = some reference := by
  unfold insert
  split
  · exact found
  · rw [get?, List.find?_append]
    exact Option.or_eq_some_iff.mpr (.inl found)

theorem get?_publish_of_found (found : shared.get? id = some reference)
    (placed : List (Instrumented × Nat)) :
    (shared.publish placed).2.get? id = some reference := by
  induction placed generalizing shared with
  | nil => exact found
  | cons place rest ih => exact ih (get?_insert_of_found found _ _)

theorem get?_insert_own (lies : shared.memory[reference]? = some entry) :
    ∃ standing, (shared.insert entry.id reference).2.get? entry.id = some standing := by
  cases found : shared.get? entry.id with
  | some standing => exact ⟨standing, get?_insert_of_found found _ _⟩
  | none =>
      have absent := found
      unfold get? at absent
      exact ⟨reference, by simp [insert, get?, List.find?_append, absent, lies]⟩

/-- Each entry is answered by the reference that stands under its id when all are published. -/
theorem publish_answers (lies : shared.Lies placed) :
    (shared.publish placed).1.map some =
      placed.map fun place => (shared.publish placed).2.get? place.1.id := by
  induction placed generalizing shared with
  | nil => rfl
  | cons place rest ih =>
      obtain ⟨first, others⟩ := List.forall_mem_cons.mp lies
      obtain ⟨standing, found⟩ := get?_insert_own first
      have remains := get?_publish_of_found found rest
      have later := ih (Lies.insert others place.1.id place.2)
      rw [List.map_cons, publish, List.map_cons, later, remains, found]
      rfl

/-! ### The cache of entries -/

theorem memory_make (allocated : shared.Allocated) (entries : List Instrumented) :
    ∀ reference ∈ shared.published,
      (shared.make entries).memory[reference]? = shared.memory[reference]? :=
  fun reference among => List.getElem?_append_left (allocated reference among)

theorem get?_make (allocated : shared.Allocated) (entries : List Instrumented) (id : UInt64) :
    (shared.make entries).get? id = shared.get? id := by
  apply List.find?_congr
  intro reference among
  rw [memory_make allocated entries reference among]

theorem toCache_make (allocated : shared.Allocated) (entries : List Instrumented) :
    (shared.make entries).toCache = shared.toCache :=
  congrArg MethodCache.mk (List.filterMap_congr (memory_make allocated entries))

theorem toCache_insert (lies : shared.memory[reference]? = some entry) :
    (shared.insert entry.id reference).1 = (shared.toCache.insert entry).1 ∧
      (shared.insert entry.id reference).2.toCache = (shared.toCache.insert entry).2 := by
  cases standing : shared.toCache.get? entry.id with
  | none =>
      have found := (get?_toCache_none_iff shared entry.id).mp standing
      simp only [insert, found, MethodCache.insert, standing, true_and]
      simp [toCache, List.filterMap_append, lies]
  | some other =>
      cases found : shared.get? entry.id with
      | none =>
          rw [(get?_toCache_none_iff shared entry.id).mpr found] at standing
          contradiction
      | some reference => simp [insert, found, MethodCache.insert, standing]

theorem toCache_publish (lies : shared.Lies placed) :
    (shared.publish placed).2.toCache = (shared.toCache.publish (placed.map (·.1))).2 := by
  induction placed generalizing shared with
  | nil => rfl
  | cons place rest ih =>
      obtain ⟨first, others⟩ := List.forall_mem_cons.mp lies
      have later := ih (Lies.insert others place.1.id place.2)
      rw [(toCache_insert first).2] at later
      exact later

theorem Allocated.make (allocated : shared.Allocated) (entries : List Instrumented) :
    (shared.make entries).Allocated := by
  intro reference among
  have bound := allocated reference among
  simp only [SharedCache.make, List.length_append]
  omega

theorem Allocated.insert (allocated : shared.Allocated) (id : UInt64)
    (made : reference < shared.memory.length) : (shared.insert id reference).2.Allocated := by
  unfold SharedCache.insert
  split
  · exact allocated
  · intro other among
    rcases List.mem_append.mp among with older | latest
    · exact allocated other older
    · exact List.mem_singleton.mp latest ▸ made

theorem Allocated.publish (allocated : shared.Allocated) (lies : shared.Lies placed) :
    (shared.publish placed).2.Allocated := by
  induction placed generalizing shared with
  | nil => exact allocated
  | cons place rest ih =>
      obtain ⟨first, others⟩ := List.forall_mem_cons.mp lies
      have made := (List.getElem?_eq_some_iff.mp first).1
      exact ih (allocated.insert place.1.id made) (Lies.insert others place.1.id place.2)

theorem lies_make (shared : SharedCache) (entries : List Instrumented) :
    (shared.make entries).Lies (entries.zipIdx shared.memory.length) := by
  rintro ⟨entry, reference⟩ among
  obtain ⟨after, found⟩ := List.mk_mem_zipIdx_iff_le_and_getElem?_sub.mp among
  simp only [make, List.getElem?_append_right after, found]

/-! ### What an insertion refers to -/

theorem refer_cases (shared : SharedCache) (entry : Instrumented) (held : Option Nat) :
    (∃ reference, shared.memory[reference]? = some entry ∧
        shared.refer entry held = (reference, shared)) ∨
      shared.refer entry held = (shared.memory.length, shared.make [entry]) := by
  unfold refer
  split
  case h_1 reference held =>
    exact .inl ⟨reference, of_decide_eq_true (Option.filter_eq_some_iff.mp held).2, rfl⟩
  case h_2 => exact .inr rfl

theorem lies_refer (shared : SharedCache) (entry : Instrumented) (held : Option Nat) :
    (shared.refer entry held).2.memory[(shared.refer entry held).1]? = some entry := by
  rcases refer_cases shared entry held with ⟨reference, lies, same⟩ | new
  · rw [same, lies]
  · simp [new, make]

/-- At most, entries are made for it. -/
theorem exists_make_of_refer (shared : SharedCache) (entry : Instrumented) (held : Option Nat) :
    ∃ made, (shared.refer entry held).2 = shared.make made := by
  rcases refer_cases shared entry held with ⟨reference, _, same⟩ | new
  · exact ⟨[], by rw [same, make, List.append_nil]⟩
  · exact ⟨[entry], by rw [new]⟩

theorem memory_refer (shared : SharedCache) (entry : Instrumented) (held : Option Nat) :
    shared.memory <+: (shared.refer entry held).2.memory := by
  obtain ⟨made, same⟩ := exists_make_of_refer shared entry held
  rw [same]
  exact List.prefix_append _ made

theorem Allocated.refer (allocated : shared.Allocated) (entry : Instrumented) (held : Option Nat) :
    (shared.refer entry held).2.Allocated := by
  obtain ⟨made, same⟩ := exists_make_of_refer shared entry held
  exact same ▸ allocated.make made

theorem get?_refer (allocated : shared.Allocated) (entry : Instrumented) (held : Option Nat)
    (id : UInt64) : (shared.refer entry held).2.get? id = shared.get? id := by
  obtain ⟨made, same⟩ := exists_make_of_refer shared entry held
  rw [same, get?_make allocated]

theorem toCache_refer (allocated : shared.Allocated) (entry : Instrumented) (held : Option Nat) :
    (shared.refer entry held).2.toCache = shared.toCache := by
  obtain ⟨made, same⟩ := exists_make_of_refer shared entry held
  rw [same, toCache_make allocated]

/-! ### Operations -/

theorem Allocated.perform (allocated : shared.Allocated) (operation : CacheOperation) :
    (shared.perform operation).2.Allocated := by
  cases operation with
  | insert entry held =>
      have known := (List.getElem?_eq_some_iff.mp (lies_refer shared entry held)).1
      exact (allocated.refer entry held).insert entry.id known
  | populate limit methods => exact (allocated.make _).publish (lies_make shared _)
  | get id => exact allocated
  | clear => exact fun _ among => absurd among List.not_mem_nil

theorem memory_perform (shared : SharedCache) (operation : CacheOperation) :
    shared.memory <+: (shared.perform operation).2.memory := by
  cases operation with
  | insert entry held =>
      rw [perform, memory_insert]
      exact memory_refer shared entry held
  | populate limit methods =>
      rw [perform, populate, memory_publish]
      exact List.prefix_append _ _
  | get id => exact List.prefix_refl _
  | clear => exact List.prefix_refl _

theorem toCache_perform (allocated : shared.Allocated) (operation : CacheOperation) :
    (shared.perform operation).2.toCache = (shared.toCache.perform operation).2 := by
  cases operation with
  | insert entry held =>
      have published := (toCache_insert (lies_refer shared entry held)).2
      rw [toCache_refer allocated] at published
      exact published
  | populate limit methods =>
      have published := toCache_publish (lies_make shared (methods.map (Instrumented.build limit)))
      rw [toCache_make allocated, List.zipIdx_map_fst] at published
      exact published
  | get id => rfl
  | clear => rfl

theorem populate_answers (shared : SharedCache) (limit : Nat) (methods : List ResolvedMethod) :
    (shared.populate limit methods).1.map some =
      methods.map fun resolved => (shared.populate limit methods).2.get? resolved.id := by
  let built := methods.map (Instrumented.build limit)
  let placed := built.zipIdx shared.memory.length
  let standing (entry : Instrumented) := (shared.populate limit methods).2.get? entry.id
  calc (shared.populate limit methods).1.map some
    _ = placed.map fun place => standing place.1 := publish_answers (lies_make shared built)
    _ = (placed.map Prod.fst).map standing := by
      rw [List.map_map]
      rfl
    _ = built.map standing := by rw [List.zipIdx_map_fst]
    _ = methods.map fun resolved => (shared.populate limit methods).2.get? resolved.id :=
      List.map_map

/-- The entries that the references of an answer are to are those that the cache of entries answers. -/
theorem answer_perform (allocated : shared.Allocated) (operation : CacheOperation) :
    (shared.perform operation).1.map ((shared.perform operation).2.memory[·]?) =
      (shared.toCache.perform operation).1.map some := by
  have later := toCache_perform allocated operation
  cases operation with
  | insert entry held =>
      have published := (toCache_insert (lies_refer shared entry held)).1
      rw [toCache_refer allocated] at published
      exact congrArg CacheAnswer.inserted published
  | populate limit methods =>
      let after := (shared.populate limit methods).2
      refine congrArg CacheAnswer.populated ?_
      calc (shared.populate limit methods).1.map (after.memory[·]?)
        _ = ((shared.populate limit methods).1.map some).map (·.bind (after.memory[·]?)) := by
          simp
        _ = methods.map fun resolved => (after.get? resolved.id).bind (after.memory[·]?) := by
          rw [populate_answers, List.map_map]
          rfl
        _ = methods.map fun resolved => (shared.toCache.populate limit methods).2.get?
              resolved.id := by
          simp only [← get?_toCache]
          exact congrArg (fun cache : MethodCache => methods.map fun resolved =>
            cache.get? resolved.id) later
        _ = (shared.toCache.populate limit methods).1.map some :=
          (MethodCache.populate_answers _ _ _).symm
  | get id =>
      refine congrArg CacheAnswer.got ?_
      rw [get?_toCache]
      cases standing : shared.get? id with
      | none => rfl
      | some reference =>
          obtain ⟨entry, lies, _⟩ := entry_of_get? standing
          simp [lies, perform]
  | clear => rfl

/-! ### Runs -/

theorem run_append (shared : SharedCache) (first second : List CacheOperation) :
    shared.run (first ++ second) = (shared.run first).run second :=
  List.foldl_append

theorem Allocated.run (allocated : shared.Allocated) (operations : List CacheOperation) :
    (shared.run operations).Allocated := by
  induction operations generalizing shared with
  | nil => exact allocated
  | cons operation rest ih => exact ih (allocated.perform operation)

theorem toCache_run (allocated : shared.Allocated) (operations : List CacheOperation) :
    (shared.run operations).toCache = shared.toCache.run operations := by
  induction operations generalizing shared with
  | nil => rfl
  | cons operation rest ih =>
      have later := ih (allocated.perform operation)
      rw [toCache_perform allocated] at later
      exact later

theorem memory_run (shared : SharedCache) (operations : List CacheOperation) :
    shared.memory <+: (shared.run operations).memory := by
  induction operations generalizing shared with
  | nil => exact List.prefix_refl _
  | cons operation rest ih => exact (memory_perform shared operation).trans (ih _)

theorem get?_perform_of_found (allocated : shared.Allocated)
    (found : shared.get? id = some reference) {operation : CacheOperation}
    (kept : operation ≠ .clear) : (shared.perform operation).2.get? id = some reference := by
  cases operation with
  | insert entry held =>
      rw [← get?_refer allocated entry held] at found
      exact get?_insert_of_found found _ _
  | populate limit methods =>
      rw [← get?_make allocated (methods.map (Instrumented.build limit))] at found
      exact get?_publish_of_found found _
  | get other => exact found
  | clear => contradiction

theorem get?_run_of_found (allocated : shared.Allocated)
    (found : shared.get? id = some reference) {operations : List CacheOperation}
    (kept : .clear ∉ operations) : (shared.run operations).get? id = some reference := by
  induction operations generalizing shared with
  | nil => exact found
  | cons operation rest ih =>
      obtain ⟨first, others⟩ := List.ne_and_not_mem_of_not_mem_cons kept
      exact ih (allocated.perform operation) (get?_perform_of_found allocated found first.symm) others

theorem allocated_empty : empty.Allocated :=
  fun _ among => absurd among List.not_mem_nil

/-- What references add to a run: who holds the same reference, and what is behind it. -/
structure SharesEntries (operations : List CacheOperation) : Prop where
  represents : (empty.run operations).toCache = MethodCache.empty.run operations
  answers : ∀ operation,
    ((empty.run operations).perform operation).1.map
        (((empty.run operations).perform operation).2.memory[·]?) =
      ((MethodCache.empty.run operations).perform operation).1.map some
  populates : ∀ limit methods, ((empty.run operations).populate limit methods).1.map some =
    methods.map fun resolved =>
      ((empty.run operations).populate limit methods).2.get? resolved.id
  /-- Until the cache is cleared, the same reference stands under an id. -/
  stays : ∀ later, .clear ∉ later → ∀ id reference,
    (empty.run operations).get? id = some reference →
    (empty.run (operations ++ later)).get? id = some reference
  /-- Whatever is done later, also clearing, an entry that was made is still there. -/
  kept : ∀ later, (empty.run operations).memory <+: (empty.run (operations ++ later)).memory

theorem run_sharesEntries (operations : List CacheOperation) : SharesEntries operations := by
  have allocated : (empty.run operations).Allocated := allocated_empty.run operations
  have represents : (empty.run operations).toCache = MethodCache.empty.run operations :=
    toCache_run allocated_empty operations
  refine ⟨represents, ?_, fun limit methods => populate_answers _ limit methods, ?_, ?_⟩
  · intro operation
    rw [answer_perform allocated, represents]
  · intro later kept id reference found
    rw [run_append]
    exact get?_run_of_found allocated found kept
  · intro later
    rw [run_append]
    exact memory_run _ later

end SharedCache

/--
The cache gives under every id what was offered first since it was cleared last, and answers each
operation accordingly. All who are given an entry share it, and it never changes.
-/
theorem MethodCache.run_first_published (operations : List CacheOperation) :
    MethodCache.FirstOffered operations ∧ SharedCache.SharesEntries operations :=
  ⟨run_firstOffered operations, SharedCache.run_sharesEntries operations⟩

end CallCapture
