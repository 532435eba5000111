import CallCapture.Probe.Manager

/-!
All that a start or a stop of the probes may do, one case for each way through it.
-/

namespace CallCapture

namespace ProbeManager

/-- The entries that a start publishes into its empty cache, and the cache with them. -/
def published (config : Config) (methods : List ResolvedMethod) :
    List Instrumented × MethodCache :=
  MethodCache.empty.populate config.maxRecursionDepth (select config methods)

def startBatch (config : Config) (methods : List ResolvedMethod) : InstallBatch :=
  .ofMethods (published config methods).1

/-- The manager after it asked to install the methods, and before it heard the answer. -/
def installing (manager : ProbeManager) (methods : List ResolvedMethod) (refusal : Option Error) :
    ProbeManager :=
  { manager with
    cache := (published manager.config methods).2
    exchanges := manager.exchanges ++ [⟨.install (startBatch manager.config methods),
      (published manager.config methods).2, refusal⟩] }

theorem start_of_idle {manager : ProbeManager} (idle : manager.capturing = false)
    (answer : NativeAnswer) (methods : List ResolvedMethod) :
    manager.start answer methods =
      if methods = [] then (.ok .nothingToCapture, manager)
      else if select manager.config methods = [] then (.ok .nothingToCapture, manager.clearCache)
      else install answer (select manager.config methods) manager.clearCache := by
  simp [start, idle]

theorem install_cleared (answer : NativeAnswer) (methods : List ResolvedMethod)
    (manager : ProbeManager) :
    install answer (select manager.config methods) manager.clearCache =
      match answer (.install (startBatch manager.config methods)) with
      | none => (.ok (.started (startBatch manager.config methods).methodIds.length),
          { manager.installing methods none with capturing := true })
      | some error => (.error error, (manager.installing methods (some error)).clearCache) := by
  cases refusal : answer (.install (startBatch manager.config methods)) with
  | none | some error =>
      unfold startBatch published at refusal
      simp only [install, clearCache, ask, refusal]
      rfl

theorem start_cases (answer : NativeAnswer) (methods : List ResolvedMethod)
    (manager : ProbeManager) :
    (methods = [] ∧ manager.start answer methods = (.ok .nothingToCapture, manager)) ∨
    (manager.capturing = true ∧
      manager.start answer methods = (.ok .alreadyCapturing, manager)) ∨
    (manager.capturing = false ∧
      manager.start answer methods = (.ok .nothingToCapture, manager.clearCache)) ∨
    (∃ error, manager.capturing = false ∧
      answer (.install (startBatch manager.config methods)) = some error ∧
      manager.start answer methods =
        (.error error, (manager.installing methods (some error)).clearCache)) ∨
    (manager.capturing = false ∧
      answer (.install (startBatch manager.config methods)) = none ∧
      manager.start answer methods =
        (.ok (.started (startBatch manager.config methods).methodIds.length),
          { manager.installing methods none with capturing := true })) := by
  by_cases empty : methods = []
  · exact .inl ⟨empty, by simp [start, empty]⟩
  · cases capturing : manager.capturing with
    | true => exact .inr (.inl ⟨rfl, by simp [start, empty, capturing]⟩)
    | false =>
        rw [start_of_idle capturing, if_neg empty]
        by_cases selected : select manager.config methods = []
        · rw [if_pos selected]
          exact .inr (.inr (.inl ⟨rfl, rfl⟩))
        · rw [if_neg selected, install_cleared]
          cases answer (.install (startBatch manager.config methods)) with
          | some error => exact .inr (.inr (.inr (.inl ⟨error, rfl, rfl, rfl⟩)))
          | none => exact .inr (.inr (.inr (.inr ⟨rfl, rfl, rfl⟩)))

/-- The manager after a stop: idle, and nothing cached. -/
def stopped (manager : ProbeManager) (refusal : Option Error) : ProbeManager :=
  { manager with
    capturing := false
    cache := .empty
    exchanges := manager.exchanges ++ [⟨.uninstall, .empty, refusal⟩] }

theorem stop_cases (answer : NativeAnswer) (manager : ProbeManager) :
    (manager.capturing = false ∧ manager.stop answer = (.ok .notCapturing, manager)) ∨
    (∃ error, manager.capturing = true ∧ answer .uninstall = some error ∧
      manager.stop answer = (.error error, manager.stopped (some error))) ∨
    (manager.capturing = true ∧ answer .uninstall = none ∧
      manager.stop answer = (.ok .stopped, manager.stopped none)) := by
  cases capturing : manager.capturing with
  | false => exact .inl ⟨rfl, by simp [stop, capturing]⟩
  | true =>
      cases refusal : answer .uninstall with
      | some error =>
          refine .inr (.inl ⟨error, rfl, rfl, ?_⟩)
          simp [stop, capturing, ask, refusal, clearCache, stopped]
      | none =>
          refine .inr (.inr ⟨rfl, rfl, ?_⟩)
          simp [stop, capturing, ask, refusal, clearCache, stopped]

/-- A start fails just if there is something to capture and the native side refuses to install it. -/
theorem start_error_iff (answer : NativeAnswer) (methods : List ResolvedMethod)
    (manager : ProbeManager) (error : Error) :
    (manager.start answer methods).1 = .error error ↔
      manager.capturing = false ∧ select manager.config methods ≠ [] ∧
        answer (.install (startBatch manager.config methods)) = some error := by
  cases capturing : manager.capturing with
  | true =>
      by_cases empty : methods = [] <;> simp [start, empty, capturing]
  | false =>
      rw [start_of_idle capturing]
      by_cases empty : methods = []
      · simp [empty, select]
      · rw [if_neg empty]
        by_cases selected : select manager.config methods = []
        · simp [selected]
        · rw [if_neg selected, install_cleared]
          cases answer (.install (startBatch manager.config methods)) with
          | some reason => simp [selected]
          | none => simp

theorem start_logger (answer : NativeAnswer) (methods : List ResolvedMethod)
    (manager : ProbeManager) : (manager.start answer methods).2.logger = manager.logger := by
  obtain ⟨_, same⟩ | ⟨_, same⟩ | ⟨_, same⟩ | ⟨_, _, _, same⟩ | ⟨_, _, same⟩ :=
    start_cases answer methods manager <;> rw [same] <;> rfl

theorem stop_logger (answer : NativeAnswer) (manager : ProbeManager) :
    (manager.stop answer).2.logger = manager.logger := by
  obtain ⟨_, same⟩ | ⟨_, _, _, same⟩ | ⟨_, _, same⟩ := stop_cases answer manager <;>
    rw [same] <;> rfl

end ProbeManager

end CallCapture
