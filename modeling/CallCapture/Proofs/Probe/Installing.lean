import CallCapture.Proofs.Capture.Cache
import CallCapture.Proofs.Probe.Transitions

/-!
What a start asks the native side for. It is asked once, for all the methods that are not excluded
and with just these in the cache, or not at all; if it refuses, nothing stays behind.
-/

namespace CallCapture

theorem Text.dropPrefix?_eq_some_iff {expected text rest : List Char} :
    Text.dropPrefix? expected text = some rest ↔ text = expected ++ rest := by
  induction expected generalizing text with
  | nil => simp [Text.dropPrefix?]
  | cons c expected ih =>
      cases text with
      | nil => simp [Text.dropPrefix?]
      | cons d text =>
          rw [Text.dropPrefix?, List.cons_append, List.cons.injEq]
          by_cases same : c = d
          · rw [if_pos same, ih]
            simp [same]
          · rw [if_neg same]
            simp [Ne.symm same]

namespace Config

variable {config : Config} {scope : String}

/-- The namespace is an excluded one, or is nested in one. -/
def Excludes (config : Config) (scope : String) : Prop :=
  ∃ excluded ∈ config.excludedNamespaces,
    scope = excluded ∨ ∃ inner, scope = excluded ++ "." ++ inner

theorem isWithin_iff {excluded : String} : isWithin scope.toList excluded.toList = true ↔
    scope = excluded ∨ ∃ inner, scope = excluded ++ "." ++ inner := by
  unfold isWithin
  cases dropped : Text.dropPrefix? excluded.toList scope.toList with
  | none =>
      have outside (rest : String) : scope ≠ excluded ++ rest := by
        intro same
        rw [Text.dropPrefix?_eq_some_iff.mpr (same ▸ String.toList_append)] at dropped
        contradiction
      refine iff_of_false Bool.false_ne_true ?_
      intro inside
      obtain same | ⟨inner, same⟩ := inside
      · exact outside "" (same.trans String.append_empty.symm)
      · exact outside ("." ++ inner) (same.trans String.append_assoc)
  | some rest =>
      have split := Text.dropPrefix?_eq_some_iff.mp dropped
      have split : scope = excluded ++ String.ofList rest := by
        rw [← String.toList_inj, String.toList_append, String.toList_ofList]
        exact split
      subst split
      cases rest with
      | nil => simp
      | cons c rest =>
          simp only [beq_iff_eq]
          constructor
          · intro dot
            right
            refine ⟨String.ofList rest, ?_⟩
            simp [← String.toList_inj, dot]
          · intro inside
            obtain same | ⟨inner, same⟩ := inside
            · simp [← String.toList_inj] at same
            · simp [← String.toList_inj] at same
              exact same.1

theorem excludesNamespace_iff : config.excludesNamespace scope = true ↔ config.Excludes scope := by
  simp only [excludesNamespace, List.any_eq_true, isWithin_iff, Excludes]

instance (config : Config) (scope : String) : Decidable (config.Excludes scope) :=
  decidable_of_iff _ excludesNamespace_iff

end Config

namespace ProbeManager

variable {manager : ProbeManager} {methods : List ResolvedMethod}

theorem select_eq (config : Config) (methods : List ResolvedMethod) :
    select config methods =
      methods.filter fun resolved => ¬ config.Excludes resolved.method.namespace := by
  unfold select
  congr 1
  funext resolved
  cases excluded : config.excludesNamespace resolved.method.namespace with
  | true => simp [Config.excludesNamespace_iff.mp excluded]
  | false => simp [← Config.excludesNamespace_iff, excluded]

/-- What the native side is told of methods, one after another. -/
def batchOf (limit : Nat) (methods : List ResolvedMethod) : InstallBatch where
  methodIds := methods.map ResolvedMethod.id
  boxingTokens := methods.map fun resolved =>
    Boxing.encodeAll (Boxing.classify limit resolved.module resolved.method)
  argumentCounts := methods.map fun resolved =>
    (Boxing.classify limit resolved.module resolved.method).length % UInt32.size

theorem published_of_distinct {config : Config}
    (distinct : ((select config methods).map ResolvedMethod.id).Nodup) :
    published config methods =
      let entries := (select config methods).map (Instrumented.build config.maxRecursionDepth)
      (entries, ⟨entries⟩) := by
  apply MethodCache.publish_of_distinct
  rw [MethodCache.empty, List.nil_append, List.map_map]
  exact distinct

theorem startBatch_of_distinct {config : Config}
    (distinct : ((select config methods).map ResolvedMethod.id).Nodup) :
    startBatch config methods = batchOf config.maxRecursionDepth (select config methods) := by
  rw [startBatch, published_of_distinct distinct]
  simp only [InstallBatch.ofMethods, batchOf, List.map_map]
  rfl

/--
A start of an idle manager, whatever its cache still holds, captures the methods that no excluded
namespace has. If there are none, nobody is asked. Else the native side is asked once to install
them, in their order, while the cache holds just their entries; if it obeys, the manager captures
with this cache, and if it refuses, the manager is idle, its cache is empty, and the refusal is the
answer.
-/
theorem start_all_or_nothing (idle : manager.capturing = false)
    (distinct : (methods.map ResolvedMethod.id).Nodup) (answer : NativeAnswer) :
    let selected :=
      methods.filter fun resolved => ¬ manager.config.Excludes resolved.method.namespace
    let batch := batchOf manager.config.maxRecursionDepth selected
    let cache : MethodCache :=
      ⟨selected.map (Instrumented.build manager.config.maxRecursionDepth)⟩
    let refusal := answer (.install batch)
    let exchanges := manager.exchanges ++ [⟨.install batch, cache, refusal⟩]
    (selected = [] → ∃ left, manager.start answer methods =
      (.ok .nothingToCapture, { manager with cache := left })) ∧
    (selected ≠ [] → manager.start answer methods =
      match refusal with
      | none => (.ok (.started selected.length),
          { manager with capturing := true, cache := cache, exchanges := exchanges })
      | some error => (.error error,
          { manager with capturing := false, cache := .empty, exchanges := exchanges })) := by
  intro selected batch cache refusal exchanges
  have same : select manager.config methods = selected := select_eq manager.config methods
  rw [start_of_idle idle]
  constructor
  · intro none
    rw [if_pos (same.trans none)]
    split
    · exact ⟨manager.cache, rfl⟩
    · exact ⟨.empty, rfl⟩
  · intro some
    have nonempty : methods ≠ [] := by
      intro empty
      exact some (by simp [selected, empty])
    have apart : ((select manager.config methods).map ResolvedMethod.id).Nodup :=
      distinct.sublist (List.filter_sublist.map ResolvedMethod.id)
    have held := published_of_distinct apart
    have told := startBatch_of_distinct apart
    rw [same] at held told
    have counted : (startBatch manager.config methods).methodIds.length = selected.length := by
      rw [told, batchOf, List.length_map]
    rw [if_neg nonempty, if_neg (same ▸ some), install_cleared, counted]
    simp only [installing, told, held, clearCache, refusal, exchanges]
    rw [← idle]
    cases answer (.install batch) <;> rfl

def methodIn (scope : String) (number : UInt32) : ResolvedMethod :=
  let method : Method := ⟨⟨0x06000000 + number⟩, "Bar", some (.ofKind scope "Foo" .classType), true,
    [], [], []⟩
  ⟨⟨1, "App.dll", false, false, [], [], [method]⟩, method⟩

/-- A stale entry, a method in a namespace nested in an excluded one, and one in a namespace that
only begins like it. -/
theorem start_all_or_nothing_mixed :
    let methods := [methodIn "App" 1, methodIn "System.Threading.Tasks" 2,
      methodIn "System.Threadings" 3]
    ∃ logger, Logger.start .initial .steady = .ok logger ∧
      let manager : ProbeManager :=
        { create .initial logger with cache := ⟨[Instrumented.build 50 (methodIn "App" 1)]⟩ }
      let refused : NativeAnswer := fun call => some (.native call.name)
      manager.capturing = false ∧ (methods.map ResolvedMethod.id).Nodup ∧
        (manager.start (fun _ => none) methods).1 = .ok (.started 2) ∧
        (manager.start (fun _ => none) methods).2.cache.entries.map Instrumented.namespace =
          ["App", "System.Threadings"] ∧
        (manager.start refused methods).1 = .error (.native "install") ∧
        (manager.start refused methods).2.cache = .empty := by
  intro methods
  have started : ∃ logger, Logger.start .initial .steady = .ok logger := ⟨_, rfl⟩
  obtain ⟨logger, started⟩ := started
  refine ⟨logger, started, ?_⟩
  intro manager refused
  have distinct : (methods.map ResolvedMethod.id).Nodup := by decide +kernel
  have two : (methods.filter fun resolved =>
      ¬ Config.initial.Excludes resolved.method.namespace).length = 2 := by decide +kernel
  have selected : (methods.filter fun resolved =>
      ¬ Config.initial.Excludes resolved.method.namespace) ≠ [] := by
    intro none
    rw [none] at two
    exact absurd two (by decide)
  have obeyed := (@start_all_or_nothing manager methods rfl distinct fun _ => none).2 selected
  have rejected := (@start_all_or_nothing manager methods rfl distinct refused).2 selected
  rw [obeyed, rejected]
  have counted := congrArg (fun count => (.ok (.started count) : Except Error StartOutcome)) two
  have cached : ((methods.filter fun resolved =>
      ¬ Config.initial.Excludes resolved.method.namespace).map (Instrumented.build 50)).map
        Instrumented.namespace = ["App", "System.Threadings"] := by decide +kernel
  exact ⟨rfl, distinct, counted, cached, rfl, rfl⟩

end ProbeManager

end CallCapture
