import ShaderLink.Registry
import Mathlib.Data.List.Nodup

/-!
# The registry stays consistent

A registry is changed by four calls: adding a source, inserting a parsed module, removing the
module of a path, and registering a generator. This module proves that every sequence of them,
from an empty registry, keeps it consistent (`Consistent.replay`):

* no two live modules share a path, so that the module found for a path is exactly the live
  module of that path (`Consistent.module?_eq_some_iff`): paths and live modules correspond one
  to one;
* no path has two recorded failures;
* no path is at once a live module and a recorded parse failure.

Each call keeps the three facts (`Consistent.step`). Two calls clear a failure and one records
a failure; the facts survive because every write to one of the two tables first removes the
path from the other.

What a single `addSource` leaves behind holds of any registry, consistent or not
(`addSource_of_error_spec`, `addSource_of_ok_spec`): after a failure the path the text declares
(or else its file path) has no module and records that failure; after a success the parsed
module's path finds that module and no failure, and so does the file path's failure.
-/

namespace ShaderLink

namespace Registry

/-- A call that changes a registry. -/
inductive Op where
  | addSource (filePath text : String)
  | insertModule (m : ParsedModule)
  | removeModule (p : ModulePath)
  | registerGenerator (g : Generator)

/-- The registry after one call. -/
def step (r : Registry) : Op → Registry
  | .addSource f t => (r.addSource f t).1
  | .insertModule m => r.insertModule m
  | .removeModule p => (r.removeModule p).1
  | .registerGenerator g => r.registerGenerator g

/-- The registry after a sequence of calls, in order. -/
def replay (r : Registry) (ops : List Op) : Registry := ops.foldl step r

/-- What every call keeps: the live modules have pairwise distinct paths, the recorded failures
have pairwise distinct paths, and no path is both. -/
structure Consistent (r : Registry) : Prop where
  paths_nodup : (r.modules.map (·.path)).Nodup
  failures_nodup : (r.failures.map (·.1)).Nodup
  apart : ∀ m ∈ r.modules, ∀ f ∈ r.failures, f.1 ≠ m.path

/-! ### The tables after each write -/

variable {r : Registry} {p q : ModulePath} {m : ParsedModule}

@[simp] theorem removeModule_modules :
    (r.removeModule p).1.modules = r.modules.filter (·.path != p) := rfl

@[simp] theorem removeModule_failures : (r.removeModule p).1.failures = r.failures := rfl

@[simp] theorem removeModule_options : (r.removeModule p).1.options = r.options := rfl

@[simp] theorem clearFailure_modules : (r.clearFailure p).modules = r.modules := rfl

@[simp] theorem clearFailure_failures :
    (r.clearFailure p).failures = r.failures.filter (·.1 != p) := rfl

@[simp] theorem insertModule_modules :
    (r.insertModule m).modules = r.modules.filter (·.path != m.path) ++ [m] := rfl

@[simp] theorem insertModule_failures :
    (r.insertModule m).failures = r.failures.filter (·.1 != m.path) := rfl

@[simp] theorem registerGenerator_modules (g : Generator) :
    (r.registerGenerator g).modules = r.modules := by
  unfold registerGenerator
  dsimp only
  split <;> rfl

@[simp] theorem registerGenerator_failures (g : Generator) :
    (r.registerGenerator g).failures = r.failures := by
  unfold registerGenerator
  dsimp only
  split <;> rfl

theorem addSource_of_ok {f t : String} (h : parseModule t f r.options = .ok m) :
    r.addSource f t = ((r.clearFailure (ModulePath.ofFilePath f)).insertModule m, .ok m.path) := by
  simp [addSource, h]

theorem addSource_of_error {f t : String} {e : ParseReport}
    (h : parseModule t f r.options = .error e) :
    let p := (ModulePath.declaredIn? t).getD (ModulePath.ofFilePath f)
    r.addSource f t = ({ (r.removeModule p).1.clearFailure p with
        failures := ((r.removeModule p).1.clearFailure p).failures ++ [(p, e)] }, .error e) := by
  simp [addSource, h]

/-! ### Lookups -/

theorem module?_eq_none_iff : r.module? p = none ↔ ∀ n ∈ r.modules, n.path ≠ p := by
  simp [module?]

theorem parseFailure?_eq_none_iff : r.parseFailure? p = none ↔ ∀ f ∈ r.failures, f.1 ≠ p := by
  simp only [parseFailure?, List.lookup_eq_none_iff, bne_iff_ne, ne_eq]
  exact forall₂_congr fun _ _ => ⟨fun h hf => h hf.symm, fun h hf => h hf.symm⟩

/-- The module found for a path is a live module of that path. -/
theorem path_of_module? (h : r.module? p = some m) : m ∈ r.modules ∧ m.path = p :=
  ⟨List.mem_of_find?_eq_some h, by simpa using List.find?_some h⟩

/-- The module appended last is what its path finds, once the others of its path are gone. -/
theorem module?_filter_append_self (l : List ParsedModule) :
    (l.filter (·.path != m.path) ++ [m]).find? (·.path == m.path) = some m := by
  rw [List.find?_append, List.find?_eq_none.2 (fun n hn => by simpa using (List.mem_filter.1 hn).2)]
  simp

@[simp] theorem module?_insertModule_self : (r.insertModule m).module? m.path = some m :=
  module?_filter_append_self r.modules

@[simp] theorem module?_removeModule_self : (r.removeModule p).1.module? p = none :=
  module?_eq_none_iff.2 fun n hn => by simpa using (List.mem_filter.1 hn).2

@[simp] theorem parseFailure?_clearFailure_self : (r.clearFailure p).parseFailure? p = none :=
  parseFailure?_eq_none_iff.2 fun f hf => by simpa using (List.mem_filter.1 hf).2

@[simp] theorem parseFailure?_insertModule_self : (r.insertModule m).parseFailure? m.path = none :=
  parseFailure?_clearFailure_self

/-- A failure recorded for a path whose failures were cleared is the one found. -/
theorem parseFailure?_record (e : ParseReport) :
    { r.clearFailure p with failures := (r.clearFailure p).failures ++ [(p, e)] }.parseFailure? p =
      some e := by
  have hcleared : (r.clearFailure p).failures.lookup p = none := parseFailure?_clearFailure_self
  change ((r.clearFailure p).failures ++ [(p, e)]).lookup p = some e
  rw [List.lookup_append, hcleared]
  simp

/-- Inserting a module clears no failure but its own path's. -/
theorem parseFailure?_insertModule_of_none (h : r.parseFailure? q = none) :
    (r.insertModule m).parseFailure? q = none :=
  parseFailure?_eq_none_iff.2 fun f hf => parseFailure?_eq_none_iff.1 h f (List.mem_filter.1 hf).1

/-! ### What one `addSource` leaves behind -/

/-- **A failed parse is recorded under the declared path.** After `addSource` fails, the path
the text declares for itself, or else its file path, has no module and records the failure. -/
theorem addSource_of_error_spec {f t : String} {e : ParseReport}
    (h : (r.addSource f t).2 = .error e) :
    let p := (ModulePath.declaredIn? t).getD (ModulePath.ofFilePath f)
    parseModule t f r.options = .error e ∧ (r.addSource f t).1.module? p = none ∧
      (r.addSource f t).1.parseFailure? p = some e := by
  intro p
  cases hparse : parseModule t f r.options with
  | ok m => simp [addSource_of_ok hparse] at h
  | error e' =>
    rw [addSource_of_error hparse] at h ⊢
    cases h
    exact ⟨rfl, module?_removeModule_self, parseFailure?_record _⟩

/-- **A parsed module replaces its path's module and failure.** After `addSource` succeeds
with path `q`, the text parsed to a module of path `q`; `q` finds that module and no failure,
and neither has the file path a failure. -/
theorem addSource_of_ok_spec {f t : String} (h : (r.addSource f t).2 = .ok q) :
    ∃ m, parseModule t f r.options = .ok m ∧ m.path = q ∧
      (r.addSource f t).1.module? q = some m ∧ (r.addSource f t).1.parseFailure? q = none ∧
      (r.addSource f t).1.parseFailure? (ModulePath.ofFilePath f) = none := by
  cases hparse : parseModule t f r.options with
  | error e => simp [addSource_of_error hparse] at h
  | ok m =>
    rw [addSource_of_ok hparse] at h ⊢
    cases h
    exact ⟨m, rfl, rfl, module?_insertModule_self, parseFailure?_insertModule_self,
      parseFailure?_insertModule_of_none parseFailure?_clearFailure_self⟩

/-! ### Every call keeps the registry consistent -/

namespace Consistent

theorem empty (options : ParseOptions) : Consistent (Registry.empty options) :=
  ⟨List.nodup_nil, List.nodup_nil, fun _ h => absurd h List.not_mem_nil⟩

/-- **Paths and live modules correspond one to one.** In a consistent registry the module found
for a path is exactly the live module of that path. -/
theorem module?_eq_some_iff (h : Consistent r) : r.module? p = some m ↔ m ∈ r.modules ∧ m.path = p := by
  refine ⟨path_of_module?, fun ⟨hm, hpath⟩ => ?_⟩
  -- the search finds some live module of `p`, and only one has that path
  obtain ⟨n, hn⟩ := Option.isSome_iff_exists.1
    (List.find?_isSome.2 ⟨m, hm, by simpa using hpath⟩ : (r.module? p).isSome)
  have hn : r.module? p = some n := hn
  obtain ⟨hn₁, hn₂⟩ := path_of_module? hn
  rw [hn, List.inj_on_of_nodup_map h.paths_nodup hn₁ hm (hn₂.trans hpath.symm)]

/-- No path of a consistent registry is both a live module and a recorded failure. -/
theorem module?_or_parseFailure? (h : Consistent r) (p : ModulePath) :
    r.module? p = none ∨ r.parseFailure? p = none := by
  cases hm : r.module? p with
  | none => exact Or.inl rfl
  | some m =>
    obtain ⟨hm₁, hm₂⟩ := path_of_module? hm
    exact Or.inr (parseFailure?_eq_none_iff.2 fun f hf => hm₂ ▸ h.apart m hm₁ f hf)

theorem clearFailure (h : Consistent r) (p : ModulePath) : Consistent (r.clearFailure p) where
  paths_nodup := h.paths_nodup
  failures_nodup := h.failures_nodup.sublist (List.filter_sublist.map _)
  apart := fun m hm f hf => h.apart m hm f (List.mem_filter.1 hf).1

theorem removeModule (h : Consistent r) (p : ModulePath) : Consistent (r.removeModule p).1 where
  paths_nodup := h.paths_nodup.sublist (List.filter_sublist.map _)
  failures_nodup := h.failures_nodup
  apart := fun m hm f hf => h.apart m (List.mem_filter.1 hm).1 f hf

theorem insertModule (h : Consistent r) (m : ParsedModule) : Consistent (r.insertModule m) where
  paths_nodup := by
    rw [insertModule_modules, List.map_append, List.nodup_append]
    refine ⟨h.paths_nodup.sublist (List.filter_sublist.map _), by simp, ?_⟩
    -- the modules kept have paths other than `m`'s
    intro a ha b hb
    obtain ⟨n, hn, rfl⟩ := List.mem_map.1 ha
    simp only [List.map_cons, List.map_nil, List.mem_singleton] at hb
    subst hb
    simpa using (List.mem_filter.1 hn).2
  failures_nodup := h.failures_nodup.sublist (List.filter_sublist.map _)
  apart := by
    intro n hn f hf
    obtain ⟨hf₁, hf₂⟩ := List.mem_filter.1 hf
    rcases List.mem_append.1 hn with hn | hn
    · exact h.apart n (List.mem_filter.1 hn).1 f hf₁
    · rw [List.mem_singleton.1 hn]
      simpa using hf₂

/-- Recording a failure for a path that has neither a module nor a failure. -/
theorem recordFailure (h : Consistent r) {p : ModulePath} (e : ParseReport)
    (hm : ∀ n ∈ r.modules, n.path ≠ p) (hf : ∀ f ∈ r.failures, f.1 ≠ p) :
    Consistent { r with failures := r.failures ++ [(p, e)] } where
  paths_nodup := h.paths_nodup
  failures_nodup := by
    rw [List.map_append, List.nodup_append]
    refine ⟨h.failures_nodup, by simp, ?_⟩
    intro a ha b hb
    obtain ⟨f, hf', rfl⟩ := List.mem_map.1 ha
    simp only [List.map_cons, List.map_nil, List.mem_singleton] at hb
    exact hb ▸ hf f hf'
  apart := by
    intro n hn f hf'
    rcases List.mem_append.1 hf' with hf' | hf'
    · exact h.apart n hn f hf'
    · rw [List.mem_singleton.1 hf']
      exact (hm n hn).symm

theorem addSource (h : Consistent r) (f t : String) : Consistent (r.addSource f t).1 := by
  cases hparse : parseModule t f r.options with
  | ok m =>
    rw [addSource_of_ok hparse]
    exact (h.clearFailure _).insertModule m
  | error e =>
    rw [addSource_of_error hparse]
    -- the path loses its module and its failures before the new failure is recorded
    refine ((h.removeModule _).clearFailure _).recordFailure e ?_ ?_
    · exact module?_eq_none_iff.1 module?_removeModule_self
    · exact parseFailure?_eq_none_iff.1 parseFailure?_clearFailure_self

theorem registerGenerator (h : Consistent r) (g : Generator) : Consistent (r.registerGenerator g) where
  paths_nodup := by simpa using h.paths_nodup
  failures_nodup := by simpa using h.failures_nodup
  apart := by simpa using h.apart

/-- One call keeps a registry consistent. -/
theorem step (h : Consistent r) : ∀ op, Consistent (r.step op)
  | .addSource f t => h.addSource f t
  | .insertModule m => h.insertModule m
  | .removeModule p => h.removeModule p
  | .registerGenerator g => h.registerGenerator g

/-- Every sequence of calls keeps a registry consistent. -/
theorem replay (h : Consistent r) (ops : List Op) : Consistent (r.replay ops) := by
  induction ops generalizing r with
  | nil => exact h
  | cons op ops ih => exact ih (h.step op)

end Consistent

/-- **A registry's history keeps it consistent.** After any sequence of calls from an empty
registry, the live modules have pairwise distinct paths and each path finds exactly its live
module; no path is both a live module and a recorded failure; and a further `addSource` leaves
a failure recorded under the declared (or file) path with no module there, or the parsed module
under its own path with no failure there nor under the file path. -/
theorem replay_consistent (options : ParseOptions) (ops : List Op) :
    let r := (Registry.empty options).replay ops
    (r.modules.map (·.path)).Nodup ∧ (∀ p m, r.module? p = some m ↔ m ∈ r.modules ∧ m.path = p) ∧
      (∀ p, r.module? p = none ∨ r.parseFailure? p = none) ∧
      (∀ f t e, (r.addSource f t).2 = .error e →
        let p := (ModulePath.declaredIn? t).getD (ModulePath.ofFilePath f)
        (r.addSource f t).1.module? p = none ∧ (r.addSource f t).1.parseFailure? p = some e) ∧
      (∀ f t q, (r.addSource f t).2 = .ok q → ∃ m, parseModule t f r.options = .ok m ∧
        m.path = q ∧ (r.addSource f t).1.module? q = some m ∧
        (r.addSource f t).1.parseFailure? q = none ∧
        (r.addSource f t).1.parseFailure? (ModulePath.ofFilePath f) = none) := by
  intro r
  have h : Consistent r := (Consistent.empty options).replay ops
  exact ⟨h.paths_nodup, fun _ _ => h.module?_eq_some_iff, h.module?_or_parseFailure?,
    fun _ _ _ he => (addSource_of_error_spec he).2, fun _ _ _ hq => addSource_of_ok_spec hq⟩

end Registry

end ShaderLink
