import CallCapture.Probe.Manager

/-!
The manager of the probes is at rest or active, and its cache and the native side keep step with it:
at rest nothing is cached and every install that was obeyed was followed by an uninstall; active,
there are cached methods and one install more.
-/

namespace CallCapture

namespace NativeExchange

/-- The native side was asked to put probes in place, and obeyed. -/
def installs (exchange : NativeExchange) : Bool :=
  match exchange.call, exchange.refusal with
  | .install _, none => true
  | _, _ => false

/-- The native side was asked to remove all probes, whatever it answered. -/
def uninstalls (exchange : NativeExchange) : Bool :=
  match exchange.call with
  | .uninstall => true
  | _ => false

end NativeExchange

namespace MethodCache

theorem size_le_insert (cache : MethodCache) (entry : Instrumented) :
    cache.size ≤ (cache.insert entry).2.size := by
  cases found : cache.get? entry.id with
  | some other => simp [insert, found]
  | none => simp [insert, found, size]

theorem insert_size_pos (cache : MethodCache) (entry : Instrumented) :
    0 < (cache.insert entry).2.size := by
  cases found : cache.get? entry.id with
  | some other =>
      have member : other ∈ cache.entries := List.mem_of_find?_eq_some found
      simpa [insert, found, size] using List.length_pos_of_mem member
  | none => simp [insert, found, size]

theorem size_le_publish (cache : MethodCache) (entries : List Instrumented) :
    cache.size ≤ (cache.publish entries).2.size := by
  induction entries generalizing cache with
  | nil => exact Nat.le_refl _
  | cons entry rest ih => exact Nat.le_trans (cache.size_le_insert entry) (ih _)

theorem populate_size_pos (cache : MethodCache) (limit : Nat) {methods : List ResolvedMethod}
    (some : methods ≠ []) : 0 < (cache.populate limit methods).2.size := by
  cases methods with
  | nil => contradiction
  | cons first rest =>
      have inserted := cache.insert_size_pos (Instrumented.build limit first)
      exact Nat.lt_of_lt_of_le inserted (size_le_publish _ (rest.map (Instrumented.build limit)))

end MethodCache

namespace ProbeManager

variable {manager : ProbeManager} {methods : List ResolvedMethod}

/-- How many installs were obeyed beyond the uninstalls that were asked for. -/
def balance (manager : ProbeManager) : Int :=
  manager.exchanges.countP NativeExchange.installs
    - manager.exchanges.countP NativeExchange.uninstalls

structure AtRest (manager : ProbeManager) : Prop where
  idle : manager.capturing = false
  cached : manager.cache.size = 0
  balanced : manager.balance = 0

structure Active (manager : ProbeManager) : Prop where
  capturing : manager.capturing = true
  cached : 0 < manager.cache.size
  balanced : manager.balance = 1

theorem create_atRest (config : Config) (logger : Logger) : (create config logger).AtRest :=
  ⟨rfl, rfl, rfl⟩

theorem balance_of_exchange (manager : ProbeManager) {after : ProbeManager}
    {exchange : NativeExchange} (made : after.exchanges = manager.exchanges ++ [exchange]) :
    after.balance = manager.balance
      + (if exchange.installs then 1 else 0) - (if exchange.uninstalls then 1 else 0) := by
  simp only [balance, made, List.countP_append, List.countP_singleton]
  split <;> split <;> omega

theorem register_atRest (rest : manager.AtRest) (answer : NativeAnswer) : (ask answer .register manager).2.AtRest := by
  refine ⟨rest.idle, rest.cached, ?_⟩
  rw [balance_of_exchange manager rfl, rest.balanced]
  rfl

theorem clearCache_atRest (rest : manager.AtRest) : manager.clearCache.AtRest :=
  ⟨rest.idle, rfl, rest.balanced⟩

/-- An install that is obeyed makes the manager active, and one that is refused leaves it at rest. -/
theorem install_of_atRest (rest : manager.AtRest) (answer : NativeAnswer) (some : methods ≠ []) :
    (∃ count, (install answer methods manager).1 = .ok (.started count) ∧
      (install answer methods manager).2.Active) ∨
    (∃ error, (install answer methods manager).1 = .error error ∧
      (install answer methods manager).2.AtRest) := by
  have cached := manager.cache.populate_size_pos manager.config.maxRecursionDepth some
  cases populated : manager.cache.populate manager.config.maxRecursionDepth methods with
  | mk entries cache =>
      rw [populated] at cached
      cases refusal : answer (.install (InstallBatch.ofMethods entries)) with
      | none =>
          left
          simp only [install, populated, ask, refusal]
          refine ⟨_, rfl, rfl, cached, ?_⟩
          rw [balance_of_exchange manager rfl, rest.balanced]
          rfl
      | some error =>
          right
          simp only [install, populated, ask, refusal]
          refine ⟨error, rfl, rest.idle, rfl, ?_⟩
          rw [balance_of_exchange manager rfl, rest.balanced]
          rfl

/-- A manager at rest becomes active exactly if it answers that it started. -/
theorem start_of_atRest (rest : manager.AtRest) (answer : NativeAnswer)
    (methods : List ResolvedMethod) :
    (∃ count, (start answer methods manager).1 = .ok (.started count) ∧
      (start answer methods manager).2.Active) ∨
    ((∀ count, (start answer methods manager).1 ≠ .ok (.started count)) ∧
      (start answer methods manager).2.AtRest) := by
  unfold start
  split
  · exact .inr ⟨by simp, rest⟩
  · rw [rest.idle]
    simp only [Bool.false_eq_true, if_false]
    split
    · exact .inr ⟨by simp, clearCache_atRest rest⟩
    · rename_i selected
      have some : select manager.config methods ≠ [] := by simpa using selected
      obtain started | ⟨error, refused, after⟩ :=
        install_of_atRest (clearCache_atRest rest) answer some
      · exact .inl started
      · exact .inr ⟨by simp [refused], after⟩

/-- Stopping leaves an active manager at rest, whatever the native side answers. -/
theorem stop_of_active (active : manager.Active) (answer : NativeAnswer) :
    (stop answer manager).2.AtRest := by
  simp only [stop, active.capturing, Bool.not_true, Bool.false_eq_true, if_false, ask]
  cases answer .uninstall with
  | none =>
      refine ⟨rfl, rfl, ?_⟩
      rw [balance_of_exchange manager rfl, active.balanced]
      rfl
  | some error =>
      refine ⟨rfl, rfl, ?_⟩
      rw [balance_of_exchange manager rfl, active.balanced]
      rfl

end ProbeManager

end CallCapture
