import CallCapture.Json.Reading
import CallCapture.Proofs.Json.Scanning

/-!
The tokens of a tree build that tree again, so that a legible tree is read back from its text and
from the bytes of its text.
-/

namespace CallCapture.JsonTree

namespace Builder

/-- The tokens take a builder from one place to another. -/
def Leads (start : Builder) (tokens : List JsonToken) (finish : Builder) : Prop :=
  tokens.foldlM step start = some finish

namespace Leads

variable {start middle finish : Builder} {token : JsonToken} {tokens more : List JsonToken}

theorem nil : Leads start [] start := rfl

theorem cons (taken : start.step token = some middle) (rest : Leads middle tokens finish) :
    Leads start (token :: tokens) finish := by
  rw [Leads, List.foldlM_cons, taken]
  exact rest

theorem append (first : Leads start tokens middle) (rest : Leads middle more finish) :
    Leads start (tokens ++ more) finish := by
  rw [Leads, List.foldlM_append, first]
  exact rest

end Leads

theorem step_firstItem {token : JsonToken} (opens : token ≠ .endArray) (stack : List Open) :
    step ⟨.firstItem, stack⟩ token = step ⟨.value, .items [] :: stack⟩ token := by
  cases token with
  | endArray => contradiction
  | _ => rfl

end Builder

open Builder

/-- From where a value must come, the tokens lead to the place after the tree. -/
def Builds (tokens : List JsonToken) (tree : JsonTree) : Prop :=
  ∀ stack, Leads ⟨.value, stack⟩ tokens ⟨.after tree, stack⟩

namespace Builds

theorem items {items : List JsonTree} (each : ∀ item ∈ items, Builds item.tokens item)
    (done : List JsonTree) (last : JsonTree) (stack : List Open) :
    Leads ⟨.after last, .items done :: stack⟩ (itemTokens items ++ [.endArray])
      ⟨.after (.array (done.reverse ++ last :: items)), stack⟩ := by
  induction items generalizing done last with
  | nil =>
      rw [← List.reverse_cons]
      exact .cons rfl .nil
  | cons item rest ih =>
      obtain ⟨next, others⟩ := List.forall_mem_cons.mp each
      have tail := ih others (last :: done) item
      rw [List.reverse_cons, List.append_assoc] at tail
      rw [itemTokens, List.cons_append, List.append_assoc]
      exact .cons rfl ((next _).append tail)

theorem fields {fields : List (Option String × JsonTree)}
    (each : ∀ field ∈ fields, Builds field.2.tokens field.2)
    (done : List (Option String × JsonTree)) (key : Option String) (last : JsonTree)
    (stack : List Open) :
    Leads ⟨.after last, .fields done key :: stack⟩ (fieldTokens fields ++ [.endObject])
      ⟨.after (.object (done.reverse ++ (key, last) :: fields)), stack⟩ := by
  induction fields generalizing done key last with
  | nil =>
      rw [← List.reverse_cons]
      exact .cons rfl .nil
  | cons field rest ih =>
      obtain ⟨next, others⟩ := List.forall_mem_cons.mp each
      have tail := ih others ((key, last) :: done) field.1 field.2
      rw [List.reverse_cons, List.append_assoc] at tail
      rw [fieldTokens, List.cons_append, List.cons_append, List.cons_append, List.append_assoc]
      exact .cons rfl (.cons rfl (.cons rfl ((next _).append tail)))

end Builds

/-- No tree starts with the end of an array. -/
theorem tokens_head (tree : JsonTree) : ∃ first rest, tree.tokens = first :: rest ∧
    first ≠ .endArray := by
  cases tree with
  | array items =>
      cases items with
      | nil => exact ⟨_, _, rfl, by simp⟩
      | cons item rest => exact ⟨_, _, by rw [tokens], by simp⟩
  | object fields =>
      cases fields with
      | nil => exact ⟨_, _, rfl, by simp⟩
      | cons field rest => exact ⟨_, _, by rw [tokens], by simp⟩
  | null => exact ⟨_, _, rfl, by simp⟩
  | bool value => exact ⟨_, _, rfl, by simp⟩
  | number value => exact ⟨_, _, rfl, by simp⟩
  | string value => exact ⟨_, _, rfl, by simp⟩

theorem firstItem_leads {tree : JsonTree} (builds : Builds tree.tokens tree) (stack : List Open) :
    Leads ⟨.firstItem, stack⟩ tree.tokens ⟨.after tree, .items [] :: stack⟩ := by
  obtain ⟨first, rest, split, opens⟩ := tree.tokens_head
  have built := builds (.items [] :: stack)
  rw [split, Leads, List.foldlM_cons] at built ⊢
  rw [step_firstItem opens stack]
  exact built

theorem Legible.builds {tree : JsonTree} (legible : tree.Legible) : Builds tree.tokens tree := by
  induction legible with
  | null => exact fun _ => .cons rfl .nil
  | bool value => exact fun _ => .cons rfl .nil
  | natural value => exact fun _ => .cons rfl .nil
  | text value => exact fun _ => .cons rfl .nil
  | @array items legible ih =>
      intro stack
      cases items with
      | nil => exact .cons rfl (.cons rfl .nil)
      | cons item rest =>
          obtain ⟨first, others⟩ := List.forall_mem_cons.mp ih
          rw [tokens]
          exact .cons rfl ((firstItem_leads first stack).append (Builds.items others [] item stack))
  | @object fields named legible ih =>
      intro stack
      cases fields with
      | nil => exact .cons rfl (.cons rfl .nil)
      | cons field rest =>
          obtain ⟨first, others⟩ := List.forall_mem_cons.mp ih
          rw [tokens]
          exact .cons rfl (.cons rfl (.cons rfl
            ((first _).append (Builds.fields others [] field.1 field.2 stack))))

theorem ofTokens?_tokens {tree : JsonTree} (legible : tree.Legible) :
    ofTokens? tree.tokens = some tree := by
  have built := legible.builds []
  rw [Leads] at built
  rw [ofTokens?, Builder.start, built]
  rfl

/-- Printing a legible tree and reading the text gives the tree back. -/
theorem parse?_print {tree : JsonTree} (legible : tree.Legible) :
    parse? tree.print = some tree := by
  rw [parse?, scan_print legible, Option.bind_some, ofTokens?_tokens legible]

theorem parseBytes?_print {tree : JsonTree} (legible : tree.Legible) :
    parseBytes? (Utf8.encode tree.print) = some tree := by
  rw [parseBytes?, scanBytes_print legible, Option.bind_some, ofTokens?_tokens legible]

end CallCapture.JsonTree
