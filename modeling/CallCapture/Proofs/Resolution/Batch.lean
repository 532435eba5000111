import CallCapture.Resolution.Lookup
import Mathlib.Data.List.Nodup

/-!
A batch of descriptions is resolved as a whole. If each of them means a method, the batch is all
methods that are meant, each where it is met first; else it is refused, with the positions of those
that mean none.
-/

namespace CallCapture

/-! ### Of several equivalent elements of a list the first stays -/

section Erasing

variable {α : Type}

/-- Induction that leaves out what is equivalent to the first element. -/
theorem erasing_induction {motive : List α → Prop} (r : α → α → Bool) (nil : motive [])
    (cons : ∀ first rest, motive (rest.filter fun later => r later first = false) →
      motive (first :: rest)) : ∀ list, motive list
  | [] => nil
  | first :: rest => cons first rest (erasing_induction r nil cons _)
termination_by list => list.length
decreasing_by exact Nat.lt_succ_of_le (List.length_filter_le _ _)

theorem eraseDupsBy_sublist (r : α → α → Bool) (list : List α) :
    (list.eraseDupsBy r).Sublist list := by
  induction list using erasing_induction r with
  | nil => exact .slnil
  | cons first rest ih =>
      rw [List.eraseDupsBy_cons]
      exact (ih.trans List.filter_sublist).cons_cons first

theorem eraseDupsBy_pairwise (r : α → α → Bool) (list : List α) :
    (list.eraseDupsBy r).Pairwise fun earlier later => r later earlier = false := by
  induction list using erasing_induction r with
  | nil => exact .nil
  | cons first rest ih =>
      rw [List.eraseDupsBy_cons, List.pairwise_cons]
      refine ⟨?_, ih⟩
      intro later among
      have kept := (eraseDupsBy_sublist r _).subset among
      exact of_decide_eq_true (List.mem_filter.mp kept).2

/-- In a sorted list, the element that stays for others comes before them. -/
theorem eraseDupsBy_represents {before : α → α → Prop} (r : α → α → Bool)
    (reflexive : ∀ element, r element element = true) {list : List α}
    (sorted : list.Pairwise before) {element : α} (among : element ∈ list) :
    ∃ first ∈ list.eraseDupsBy r, r element first = true ∧
      (first = element ∨ before first element) := by
  induction list using erasing_induction r with
  | nil => cases among
  | cons head rest ih =>
      rw [List.pairwise_cons] at sorted
      rw [List.eraseDupsBy_cons]
      rcases List.mem_cons.mp among with rfl | later
      · exact ⟨element, List.mem_cons_self, reflexive element, .inl rfl⟩
      · by_cases same : r element head = true
        · exact ⟨head, List.mem_cons_self, same, .inr (sorted.1 element later)⟩
        · have kept : element ∈ rest.filter fun later => r later head = false :=
            List.mem_filter.mpr ⟨later, decide_eq_true (Bool.eq_false_iff.mpr same)⟩
          rcases ih (sorted.2.filter _) kept with ⟨first, stays, represents⟩
          exact ⟨first, List.mem_cons_of_mem _ stays, represents⟩

theorem map_eraseDupsBy {β : Type} (key : α → β) (r : β → β → Bool) (list : List α) :
    (list.eraseDupsBy fun left right => r (key left) (key right)).map key =
      (list.map key).eraseDupsBy r := by
  induction list using erasing_induction (fun left right => r (key left) (key right)) with
  | nil => rfl
  | cons first rest ih =>
      rw [List.eraseDupsBy_cons, List.map_cons, List.map_cons, List.eraseDupsBy_cons, ih,
        List.filter_map]
      rfl

end Erasing

theorem zipIdx_pairwise {α : Type} (list : List α) : list.zipIdx.Pairwise (·.2 < ·.2) := by
  have positions := List.zipIdx_map_snd 0 list
  rw [← List.pairwise_map, positions]
  exact List.pairwise_lt_range'

theorem zipIdx_filter_map_fst {α : Type} (kept : α → Bool) (list : List α) :
    (list.zipIdx.filter (kept ·.1)).map Prod.fst = list.filter kept := by
  conv => rhs; rw [← List.zipIdx_map_fst 0 list]
  rw [List.filter_map]
  rfl

/-! ### A method is told by its id -/

theorem LoadedModule.methodId_inj {first second : LoadedModule} {left right : Method}
    (same : first.methodId left = second.methodId right) :
    first.id = second.id ∧ left.token = right.token := by
  have values := congrArg UInt64.toNat same
  have bounds := And.intro first.id.toNat_lt second.id.toNat_lt
  have rows := And.intro left.token.value.toNat_lt right.token.value.toNat_lt
  simp only [LoadedModule.methodId, UInt64.toNat_ofNat', UInt32.size] at values
  have ids : first.id.toNat = second.id.toNat := by omega
  have tokens : left.token.value.toNat = right.token.value.toNat := by omega
  exact ⟨UInt32.toNat_inj.mp ids, congrArg Token.mk (UInt32.toNat_inj.mp tokens)⟩

def ResolvedMethod.same (left right : ResolvedMethod) : Bool :=
  left.id == right.id

namespace Description

/-! ### Where descriptions meet methods -/

/-- A description of a list, a module of a catalog and a method of it, each by its position. -/
structure Place where
  description : Nat
  module : Nat
  method : Nat
deriving DecidableEq, Repr

/-- Descriptions count first, then modules in load order, then methods. -/
def Place.Before (first second : Place) : Prop :=
  first.description < second.description ∨
    first.description = second.description ∧
      (first.module < second.module ∨
        first.module = second.module ∧ first.method < second.method)

theorem Place.Before.trans {first second third : Place} (left : first.Before second)
    (right : second.Before third) : first.Before third := by
  unfold Place.Before at left right ⊢
  omega

/-- The description at the place means the method at the place, which can be instrumented. -/
def Meets (catalog : Catalog) (descriptions : List Description) (place : Place)
    (resolved : ResolvedMethod) : Prop :=
  ∃ description, descriptions[place.description]? = some description ∧
    catalog[place.module]? = some resolved.module ∧
    resolved.module.methods[place.method]? = some resolved.method ∧
    resolved.module.isExecutable = true ∧
    description.matchesModule resolved.module = true ∧
    description.matchesMethod resolved.method = true

def matchesIn (description : Description) (position : Nat) (entry : LoadedModule × Nat) :
    List (Place × ResolvedMethod) :=
  (entry.1.methods.zipIdx.filter (description.matchesMethod ·.1)).map fun method =>
    (⟨position, entry.2, method.2⟩, ⟨entry.1, method.1⟩)

def matchesOf (catalog : Catalog) (entry : Description × Nat) : List (Place × ResolvedMethod) :=
  (catalog.zipIdx.filter fun module =>
    module.1.isExecutable && entry.1.matchesModule module.1).flatMap (matchesIn entry.1 entry.2)

/-- All methods that the descriptions mean, each at the places where they meet it. -/
def matchesAt (catalog : Catalog) (descriptions : List Description) :
    List (Place × ResolvedMethod) :=
  descriptions.zipIdx.flatMap (matchesOf catalog)

variable {catalog : Catalog} {descriptions : List Description} {resolved : ResolvedMethod}

theorem matchesIn_resolved (description : Description) (position : Nat)
    (entry : LoadedModule × Nat) :
    (matchesIn description position entry).map Prod.snd = description.methodsIn entry.1 := by
  rw [methodsIn, ← zipIdx_filter_map_fst, matchesIn, List.map_map, List.map_map]
  rfl

theorem matchesOf_resolved (catalog : Catalog) (entry : Description × Nat) :
    (matchesOf catalog entry).map Prod.snd = entry.1.resolve catalog := by
  rw [resolve, ← zipIdx_filter_map_fst, List.flatMap_map, matchesOf, List.map_flatMap]
  simp only [matchesIn_resolved]

theorem matchesAt_resolved (catalog : Catalog) (descriptions : List Description) :
    (matchesAt catalog descriptions).map Prod.snd = descriptions.flatMap (resolve catalog) := by
  conv => rhs; rw [← List.zipIdx_map_fst 0 descriptions]
  rw [List.flatMap_map, matchesAt, List.map_flatMap]
  simp only [matchesOf_resolved]

theorem mem_matchesAt_iff {place : Place} :
    (place, resolved) ∈ matchesAt catalog descriptions ↔
      Meets catalog descriptions place resolved := by
  simp only [matchesAt, matchesOf, matchesIn, List.mem_flatMap, List.mem_map, List.mem_filter,
    List.mem_zipIdx_iff_getElem?, Bool.and_eq_true, Prod.mk.injEq]
  constructor
  · rintro ⟨entry, described, module, ⟨loaded, executable, named⟩, method, ⟨listed, wanted⟩, rfl,
      rfl⟩
    exact ⟨entry.1, described, loaded, listed, executable, named, wanted⟩
  · rintro ⟨description, described, loaded, listed, executable, named, wanted⟩
    exact ⟨(description, place.description), described, (resolved.module, place.module),
      ⟨loaded, executable, named⟩, (resolved.method, place.method), ⟨listed, wanted⟩, rfl, rfl⟩

theorem matchesIn_pairwise (description : Description) (position : Nat)
    (entry : LoadedModule × Nat) :
    (matchesIn description position entry).Pairwise (·.1.Before ·.1) := by
  refine List.pairwise_map.mpr (((zipIdx_pairwise _).filter _).imp ?_)
  intro first second earlier
  exact .inr ⟨rfl, .inr ⟨rfl, earlier⟩⟩

theorem matchesOf_pairwise (catalog : Catalog) (entry : Description × Nat) :
    (matchesOf catalog entry).Pairwise (·.1.Before ·.1) := by
  refine List.pairwise_flatMap.mpr ⟨fun module _ => matchesIn_pairwise _ _ module, ?_⟩
  refine ((zipIdx_pairwise catalog).filter _).imp ?_
  intro first second earlier left among right among'
  rcases List.mem_map.mp among with ⟨_, _, rfl⟩
  rcases List.mem_map.mp among' with ⟨_, _, rfl⟩
  exact .inr ⟨rfl, .inl earlier⟩

theorem matchesAt_pairwise (catalog : Catalog) (descriptions : List Description) :
    (matchesAt catalog descriptions).Pairwise (·.1.Before ·.1) := by
  have position {entry : Description × Nat} {found : Place × ResolvedMethod}
      (among : found ∈ matchesOf catalog entry) : found.1.description = entry.2 := by
    rcases List.mem_flatMap.mp among with ⟨_, _, inside⟩
    rcases List.mem_map.mp inside with ⟨_, _, rfl⟩
    rfl
  refine List.pairwise_flatMap.mpr ⟨fun entry _ => matchesOf_pairwise catalog entry, ?_⟩
  refine (zipIdx_pairwise descriptions).imp ?_
  intro first second earlier left among right among'
  refine .inl ?_
  rwa [position among, position among']

/-- The methods that the descriptions mean, each at the place of its first match. -/
def firstMatches (catalog : Catalog) (descriptions : List Description) :
    List (Place × ResolvedMethod) :=
  (matchesAt catalog descriptions).eraseDupsBy fun left right => left.2.same right.2

theorem firstMatches_resolved (catalog : Catalog) (descriptions : List Description) :
    (firstMatches catalog descriptions).map Prod.snd =
      (descriptions.flatMap (resolve catalog)).eraseDupsBy ResolvedMethod.same := by
  rw [← matchesAt_resolved]
  exact map_eraseDupsBy Prod.snd ResolvedMethod.same _

theorem mem_flatMap_resolve_iff :
    resolved ∈ descriptions.flatMap (resolve catalog) ↔
      ∃ place, Meets catalog descriptions place resolved := by
  simp only [← matchesAt_resolved, List.mem_map, Prod.exists, exists_eq_right, mem_matchesAt_iff]

/-- In a catalog that tells modules and methods apart, methods of the same id are the same. -/
theorem eq_of_id_eq (modules : (catalog.map LoadedModule.id).Nodup)
    (tokens : ∀ module ∈ catalog, (module.methods.map Method.token).Nodup)
    {place place' : Place} {other : ResolvedMethod}
    (meets : Meets catalog descriptions place resolved)
    (meets' : Meets catalog descriptions place' other) (same : resolved.id = other.id) :
    resolved = other := by
  rcases meets with ⟨_, _, loaded, listed, _⟩
  rcases meets' with ⟨_, _, loaded', listed', _⟩
  rcases LoadedModule.methodId_inj same with ⟨ids, rows⟩
  have among := List.mem_of_getElem? loaded
  have module : resolved.module = other.module :=
    List.inj_on_of_nodup_map modules among (List.mem_of_getElem? loaded') ids
  rw [← module] at listed'
  have method : resolved.method = other.method :=
    List.inj_on_of_nodup_map (tokens resolved.module among) (List.mem_of_getElem? listed)
      (List.mem_of_getElem? listed') rows
  cases resolved
  cases other
  cases module
  cases method
  rfl

theorem firstMatches_meets {place : Place}
    (among : (place, resolved) ∈ firstMatches catalog descriptions) :
    Meets catalog descriptions place resolved :=
  mem_matchesAt_iff.mp ((eraseDupsBy_sublist _ _).subset among)

theorem firstMatches_pairwise (catalog : Catalog) (descriptions : List Description) :
    (firstMatches catalog descriptions).Pairwise fun earlier later =>
      earlier.1.Before later.1 ∧ earlier.2.id ≠ later.2.id := by
  refine ((matchesAt_pairwise catalog descriptions).sublist (eraseDupsBy_sublist _ _)).and ?_
  refine (eraseDupsBy_pairwise _ (matchesAt catalog descriptions)).imp ?_
  intro earlier later differ same
  exact absurd (beq_iff_eq.mpr same.symm) (Bool.eq_false_iff.mp differ)

section Distinct

variable (modules : (catalog.map LoadedModule.id).Nodup)
  (tokens : ∀ module ∈ catalog, (module.methods.map Method.token).Nodup)

include modules tokens

theorem firstMatches_represents {place : Place}
    (meets : Meets catalog descriptions place resolved) :
    ∃ first, (first, resolved) ∈ firstMatches catalog descriptions ∧
      (first = place ∨ first.Before place) := by
  have represented := eraseDupsBy_represents
    (fun left right : Place × ResolvedMethod => left.2.same right.2)
    (fun entry => beq_self_eq_true entry.2.id) (matchesAt_pairwise catalog descriptions)
    (mem_matchesAt_iff.mpr meets)
  rcases represented with ⟨⟨first, other⟩, stays, same, earlier⟩
  -- Only ids are compared; in a catalog of distinct ids and tokens that is as good as the methods.
  have equal : resolved = other :=
    eq_of_id_eq modules tokens meets (firstMatches_meets stays) (eq_of_beq same)
  refine ⟨first, equal ▸ stays, ?_⟩
  rcases earlier with here | before
  · exact .inl (congrArg Prod.fst here)
  · exact .inr before

/-- Where a method stays it is met for the first time. -/
theorem firstMatches_first {first place : Place}
    (among : (first, resolved) ∈ firstMatches catalog descriptions)
    (meets : Meets catalog descriptions place resolved) :
    first = place ∨ first.Before place := by
  rcases firstMatches_represents modules tokens meets with ⟨other, stays, earlier⟩
  have apart : ((firstMatches catalog descriptions).map (·.2.id)).Nodup :=
    List.pairwise_map.mpr ((firstMatches_pairwise catalog descriptions).imp And.right)
  have same : (first, resolved) = (other, resolved) :=
    List.inj_on_of_nodup_map apart among stays rfl
  cases same
  exact earlier

end Distinct

/-! ### What a batch is resolved to -/

theorem unresolved_pairwise (catalog : Catalog) (descriptions : List Description) :
    (unresolved catalog descriptions).Pairwise (· < ·) :=
  List.pairwise_map.mpr ((zipIdx_pairwise descriptions).filter _)

theorem mem_unresolved_iff {index : Nat} : index ∈ unresolved catalog descriptions ↔
    ∃ description, descriptions[index]? = some description ∧ description.resolve catalog = [] := by
  simp only [unresolved, List.mem_map, List.mem_filter, List.mem_zipIdx_iff_getElem?,
    List.isEmpty_iff, Prod.exists, exists_eq_right]

theorem unresolved_eq_nil_iff : unresolved catalog descriptions = [] ↔
    ∀ description ∈ descriptions, description.resolve catalog ≠ [] := by
  rw [List.eq_nil_iff_forall_not_mem]
  constructor
  · intro none description among empty
    rcases List.mem_iff_getElem?.mp among with ⟨index, found⟩
    exact none index (mem_unresolved_iff.mpr ⟨description, found, empty⟩)
  · intro each index among
    rcases mem_unresolved_iff.mp among with ⟨description, found, empty⟩
    exact each description (List.mem_of_getElem? found) empty

/-- All that a list of descriptions means, each method once and in the order of its first match. -/
structure Batch (catalog : Catalog) (descriptions : List Description)
    (methods : List ResolvedMethod) : Prop where
  members : ∀ resolved, resolved ∈ methods ↔
    ∃ description ∈ descriptions, resolved ∈ description.resolve catalog
  distinct : methods.Pairwise fun left right => left ≠ right ∧ left.id ≠ right.id
  /-- Before any match of a later method there is one of an earlier method. -/
  ordered : methods.Pairwise fun earlier later =>
    ∀ place, Meets catalog descriptions place later →
      ∃ first, Meets catalog descriptions first earlier ∧ first.Before place
  executable : ∀ resolved ∈ methods,
    resolved.module.dynamic = false ∧ resolved.module.reflectionOnly = false

theorem firstMatches_batch (modules : (catalog.map LoadedModule.id).Nodup)
    (tokens : ∀ module ∈ catalog, (module.methods.map Method.token).Nodup)
    (descriptions : List Description) :
    Batch catalog descriptions ((firstMatches catalog descriptions).map Prod.snd) where
  members := by
    intro resolved
    have meant : (∃ description ∈ descriptions, resolved ∈ description.resolve catalog) ↔
        ∃ place, Meets catalog descriptions place resolved := by
      rw [← mem_flatMap_resolve_iff, List.mem_flatMap]
    rw [meant, List.mem_map]
    constructor
    · intro stays
      rcases stays with ⟨⟨place, _⟩, among, rfl⟩
      exact ⟨place, firstMatches_meets among⟩
    · intro met
      rcases met with ⟨place, meets⟩
      rcases firstMatches_represents modules tokens meets with ⟨first, among, _⟩
      exact ⟨(first, resolved), among, rfl⟩
  distinct := by
    refine List.pairwise_map.mpr ((firstMatches_pairwise catalog descriptions).imp ?_)
    intro left right apart
    exact ⟨fun same => apart.2 (congrArg ResolvedMethod.id same), apart.2⟩
  ordered := by
    refine List.pairwise_map.mpr
      ((firstMatches_pairwise catalog descriptions).imp_of_mem ?_)
    intro earlier later among among' apart place meets
    refine ⟨earlier.1, firstMatches_meets among, ?_⟩
    rcases firstMatches_first modules tokens among' meets with rfl | before
    · exact apart.1
    · exact apart.1.trans before
  executable := by
    intro resolved stays
    rcases List.mem_map.mp stays with ⟨⟨place, _⟩, among, rfl⟩
    rcases firstMatches_meets among with ⟨_, _, _, _, executable, _⟩
    simpa [LoadedModule.isExecutable] using executable

/-- If all descriptions of a batch mean methods, it is resolved to these, each once and in the order
of its first match; else it is refused with the positions of those that mean none. -/
theorem resolveAll_exact (modules : (catalog.map LoadedModule.id).Nodup)
    (tokens : ∀ module ∈ catalog, (module.methods.map Method.token).Nodup)
    (descriptions : List Description) :
    ((∃ description ∈ descriptions, description.resolve catalog = []) →
      ∃ indices, resolveAll catalog descriptions = .error (.unresolvedMethods indices) ∧
        indices.Pairwise (· < ·) ∧
        ∀ index, index ∈ indices ↔ ∃ description,
          descriptions[index]? = some description ∧ description.resolve catalog = []) ∧
    ((∀ description ∈ descriptions, description.resolve catalog ≠ []) →
      ∃ methods, resolveAll catalog descriptions = .ok methods ∧
        Batch catalog descriptions methods) := by
  constructor
  · intro some
    rcases some with ⟨description, among, empty⟩
    have refused : unresolved catalog descriptions ≠ [] := by
      intro none
      exact unresolved_eq_nil_iff.mp none description among empty
    refine ⟨unresolved catalog descriptions, ?_, unresolved_pairwise catalog descriptions,
      fun index => mem_unresolved_iff⟩
    cases indices : unresolved catalog descriptions with
    | nil => exact absurd indices refused
    | cons first rest => rw [resolveAll, indices]
  · intro each
    refine ⟨_, ?_, firstMatches_batch modules tokens descriptions⟩
    rw [resolveAll, unresolved_eq_nil_iff.mpr each, firstMatches_resolved]
    rfl

def barIn (id : UInt32) (name : String) (dynamic : Bool) (rows : List UInt32) : LoadedModule :=
  ⟨id, name, dynamic, false, [], [], rows.map fun row =>
    ⟨⟨row⟩, "Bar", some (.ofKind "App" "Foo" .classType), false, [], [], []⟩⟩

/-- Two files of one name have methods with equal tokens, and a third one cannot be instrumented. -/
def twins : Catalog :=
  [barIn 1 "App.dll" false [0x06000001, 0x06000002], barIn 2 "APP.DLL" false [0x06000001],
    barIn 3 "App.dll" true [0x06000001]]

theorem resolveAll_exact_twins :
    let meant : Description := .anyOverload "App.dll" "App.Foo" "Bar"
    let missing : Description := .anyOverload "App.dll" "App.Foo" "Baz"
    (twins.map LoadedModule.id).Nodup ∧
      (∀ module ∈ twins, (module.methods.map Method.token).Nodup) ∧
      (∀ description ∈ [meant, meant], description.resolve twins ≠ []) ∧
      (∃ methods, resolveAll twins [meant, meant] = .ok methods ∧
        methods.map ResolvedMethod.id = [0x106000001, 0x106000002, 0x206000001] ∧
        Batch twins [meant, meant] methods) ∧
      ∃ indices, resolveAll twins [missing, meant, missing] =
        .error (.unresolvedMethods indices) ∧ 0 ∈ indices ∧ 1 ∉ indices ∧ 2 ∈ indices := by
  intro meant missing
  have modules : (twins.map LoadedModule.id).Nodup := by decide
  have tokens : ∀ module ∈ twins, (module.methods.map Method.token).Nodup := by decide
  have some : ∀ description ∈ [meant, meant], description.resolve twins ≠ [] := by decide +kernel
  have none : missing.resolve twins = [] := by decide +kernel
  rcases (resolveAll_exact modules tokens [meant, meant]).2 some with ⟨methods, found, batch⟩
  rcases (resolveAll_exact modules tokens [missing, meant, missing]).1
    ⟨missing, List.mem_cons_self, none⟩ with ⟨indices, refused, _, each⟩
  refine ⟨modules, tokens, some, ⟨methods, found, ?_, batch⟩, indices, refused, ?_, ?_, ?_⟩
  · have ids : (resolveAll twins [meant, meant]).toOption.map (·.map ResolvedMethod.id) =
        Option.some [0x106000001, 0x106000002, 0x206000001] := by decide +kernel
    rw [found] at ids
    exact Option.some.inj ids
  · exact (each 0).mpr ⟨missing, rfl, none⟩
  · intro among
    rcases (each 1).mp among with ⟨description, described, empty⟩
    cases described
    exact some meant List.mem_cons_self empty
  · exact (each 2).mpr ⟨missing, rfl, none⟩

end Description

end CallCapture
