import Croc.Scripts.LongestPath
import Croc.Scripts.Frames
import Mathlib.Data.String.Basic
import Mathlib.Order.Bounds.Basic

/-!
# The trusted-stack gate

`analyze_trusted_stack.py` reads the report of the linker, builds the graph of the compartments'
imports from each other, and takes the longest simple path from the entry compartment of any thread
as an estimate of the depth of the trusted stack. With `--check` it compares the
`trusted_stack_frames` values of `xmake.lua` with that estimate plus a reserve, and a build fails if
it returns something else than zero.

The comparison is with the largest of the values only. So a file with one value that is large enough
passes, whatever the others are.

Nothing catches an exception. The program raises one if an import names its compartment by a list or
a dictionary, which cannot be looked up in a set, or if a value in the file has more digits than
`int` reads.

## Main definitions

* `Json`, `Report`: what `json.load` returns, and a report that passed the check of `load_report`.
* `buildGraph`, `threadRoots`, `main`: the program.
* `Imports`, `IsEntry`, `callDepths`: the import graph of a report, its entry compartments, and the
  lengths of the simple paths from these.
* `UnhashableTarget`: the report has an import that cannot be looked up.

## Main results

* `edge_iff_imports`, `mem_threadRoots`: the graph and the roots are those of the report.
* `isGreatest_maximumDepth`: the depth is that of the longest path.
* `main_error_iff`: when the program raises.
* `main_check_iff`: when the program returns zero.
* `check_passes_iff`: when the gate is sound.
-/

namespace Croc

namespace TrustedStack

open SimplePath ListLoop

/-! ### Reports -/

/-- A value that `json.load` returns. -/
inductive Json
  | null
  | bool (b : Bool)
  | num (literal : String)
  | str (s : String)
  | arr (items : List Json)
  | obj (fields : List (String × Json))

/-- A dictionary of `json.load`; its `get` is `List.lookup`. -/
abbrev Dict := List (String × Json)

namespace Json

/-- The value, if `isinstance(value, dict)`. -/
def dict? : Json → Option Dict
  | .obj fields => some fields
  | _ => none

/-- The value, if `isinstance(value, list)`. -/
def list? : Json → Option (List Json)
  | .arr items => some items
  | _ => none

/-- The value, if `isinstance(value, str)`. -/
def str? : Json → Option String
  | .str s => some s
  | _ => none

/-- Whether `hash(value)` exists: not for a list nor for a dictionary. -/
def hashable : Json → Bool
  | .arr _ | .obj _ => false
  | _ => true

@[simp] theorem dict?_eq_some {value : Json} {fields : Dict} :
    value.dict? = some fields ↔ value = .obj fields := by
  cases value <;> simp [dict?]

@[simp] theorem list?_eq_some {value : Json} {items : List Json} :
    value.list? = some items ↔ value = .arr items := by
  cases value <;> simp [list?]

@[simp] theorem str?_eq_some {value : Json} {s : String} :
    value.str? = some s ↔ value = .str s := by
  cases value <;> simp [str?]

end Json

/-- A CHERIoT compartment report: a dictionary with a dictionary of compartments. -/
structure Report where
  /-- The report. -/
  fields : Dict
  /-- `report["compartments"]`. -/
  compartments : Dict
  /-- What `load_report` checks. -/
  lookup_compartments : fields.lookup "compartments" = some (.obj compartments)

/-- The errors of `load_report`. -/
inductive LoadError
  | fileNotFoundError
  | osError
  | valueError
  deriving DecidableEq, Repr

/-- `load_report`, on what opening and decoding the file gives. -/
def loadReport : Except LoadError Json → Except LoadError Report
  | .error e => .error e
  | .ok (.obj fields) =>
    match h : fields.lookup "compartments" with
    | some (.obj compartments) => .ok ⟨fields, compartments, h⟩
    | _ => .error .valueError
  | .ok _ => .error .valueError

/-! ### The graph -/

/-- `names`. -/
def Report.names (report : Report) : Finset String := (report.compartments.map Prod.fst).toFinset

/-- The list that the loop over the imports of a compartment goes through. -/
def importsOf (value : Json) : List Json :=
  ((value.dict?.bind (·.lookup "imports")).bind Json.list?).getD []

/-- Whether `item.get("kind")` is `"CompartmentExport"`. -/
def isCompartmentExport (item : Dict) : Bool :=
  (item.lookup "kind").bind Json.str? == some "CompartmentExport"

/-- One round of the loop over the imports of a compartment. A list or dictionary as `target` cannot
be looked up in `names`. -/
def addImport (names : Finset String) (source : String) (sets : String → Finset String) :
    Json → Except Raised (String → Finset String)
  | .obj item =>
    if isCompartmentExport item then
      match item.lookup "compartment_name" with
      | some (.str target) =>
        if target ∈ names then .ok (Function.update sets source (insert target (sets source)))
        else .ok sets
      | some (.arr _) | some (.obj _) => .error .typeError
      | _ => .ok sets
    else .ok sets
  | _ => .ok sets

/-- One round of the loop over the compartments. -/
def addImports (names : Finset String) (sets : String → Finset String) (entry : String × Json) :
    Except Raised (String → Finset String) :=
  (importsOf entry.2).foldlM (addImport names entry.1) sets

/-- `build_graph`. -/
def buildGraph (report : Report) : Except Raised (Graph String) := do
  let sets ← report.compartments.foldlM (addImports report.names) fun _ => ∅
  return ⟨report.names, sets⟩

/-! ### The roots -/

/-- The compartment of `thread.get("entry_point")`. -/
def entryOf (thread : Json) : Option String :=
  ((thread.dict?.bind (·.lookup "entry_point")).bind Json.dict?).bind fun entry =>
    (entry.lookup "compartment_name").bind Json.str?

/-- `thread_roots`. -/
def threadRoots (report : Report) : List String :=
  (((report.fields.lookup "threads").bind Json.list?).getD []).foldl
    (fun roots thread =>
      match entryOf thread with
      | some compartment => if compartment ∈ roots then roots else roots ++ [compartment]
      | none => roots)
    []

/-! ### The program -/

/-- The options. -/
structure Args where
  /-- `--reserve`. -/
  reserve : ℤ := 1
  /-- `--check`. -/
  check : Bool := false
  /-- `--strict`. -/
  strict : Bool := false

/-- The errors of reading `xmake.lua`. -/
inductive ReadError
  | osError
  | unicodeDecodeError
  deriving DecidableEq, Repr

/-- `maximum_depth` after the loop over the roots. -/
def maximumDepth (roots : List String) (graph : Graph String) : ℕ :=
  roots.foldl (fun maximum root => max maximum ((longestSimplePath root graph).1.length - 1)) 0

/-- `all_cycles` after the loop over the roots. -/
def allCycles (roots : List String) (graph : Graph String) : Finset (List String) :=
  roots.foldl (fun cycles root => cycles ∪ (longestSimplePath root graph).2) ∅

/-- `recommendation`. -/
def recommendation (reserve : ℤ) (maximumDepth : ℕ) : ℤ := max 1 (maximumDepth + reserve)

/-- The end of `main`: the return value. -/
def exitCode (args : Args) (recommendation : ℤ) (cycles : Finset (List String))
    (configured : List ℕ) : ℕ :=
  if args.strict ∧ cycles ≠ ∅ then 1
  else if args.check ∧ configured.max?.any fun largest : ℕ => (largest : ℤ) < recommendation then 1
  else 0

/-- `main`, on the options and on what reading the two files gives. Its result is the return
value. -/
def main (py : Python) (args : Args) (input : Except LoadError Json)
    (xmake : Option (Except ReadError (List Char))) : Except Raised ℕ :=
  if args.reserve < 0 then .ok 2
  else
    match loadReport input with
    | .error _ => .ok 2
    | .ok report => do
      let graph ← buildGraph report
      let roots := threadRoots report
      if roots = [] then return 2
      let recommended := recommendation args.reserve (maximumDepth roots graph)
      let cycles := allCycles roots graph
      match xmake with
      | none => return exitCode args recommended cycles []
      | some (.error .osError) => return 2
      | some (.error .unicodeDecodeError) => throw .valueError
      | some (.ok text) =>
        let configured ← parseXmakeFrames py text
        return exitCode args recommended cycles configured

/-! ### What the report says -/

/-- An item of the imports is an export of the compartment `target`. -/
def Exports (names : Finset String) (item : Json) (target : String) : Prop :=
  ∃ fields, item = .obj fields ∧ fields.lookup "kind" = some (.str "CompartmentExport") ∧
    fields.lookup "compartment_name" = some (.str target) ∧ target ∈ names

/-- The compartment-export import graph: `source` imports an export of `target`. -/
def Imports (report : Report) (source target : String) : Prop :=
  ∃ value imports item, (source, .obj value) ∈ report.compartments ∧
    value.lookup "imports" = some (.arr imports) ∧ item ∈ imports ∧ Exports report.names item target

/-- The compartment is the entry compartment of a thread. -/
def IsEntry (report : Report) (root : String) : Prop :=
  ∃ threads thread entry, report.fields.lookup "threads" = some (.arr threads) ∧
    .obj thread ∈ threads ∧
    thread.lookup "entry_point" = some (.obj entry) ∧
    entry.lookup "compartment_name" = some (.str root)

/-- The numbers of edges of the simple paths from the entry compartments. -/
def callDepths (report : Report) : Set ℕ :=
  {n | ∃ root p, IsEntry report root ∧ IsSimplePath (Imports report) root p ∧ p.length = n + 1}

/-- An item of the imports is a compartment export whose compartment is named by a list or a
dictionary. -/
def UnhashableExport (item : Json) : Prop :=
  ∃ fields name, item = .obj fields ∧ fields.lookup "kind" = some (.str "CompartmentExport") ∧
    fields.lookup "compartment_name" = some name ∧ name.hashable = false

/-- Some compartment of the report imports such an item. -/
def UnhashableTarget (report : Report) : Prop :=
  ∃ source value imports item, (source, .obj value) ∈ report.compartments ∧
    value.lookup "imports" = some (.arr imports) ∧ item ∈ imports ∧ UnhashableExport item

/-- An entry compartment reaches a cycle of imports. -/
def ReachesCycle (report : Report) : Prop :=
  ∃ root l, IsEntry report root ∧ IsSimpleCycle (Imports report) l ∧
    ∃ x ∈ l, Relation.ReflTransGen (Imports report) root x

/-! ### The graph is that of the report -/

theorem isCompartmentExport_iff {item : Dict} :
    isCompartmentExport item = true ↔ item.lookup "kind" = some (.str "CompartmentExport") := by
  simp [isCompartmentExport, Option.bind_eq_some_iff]

variable {names : Finset String} {source : String} {sets sets' : String → Finset String}

theorem exports_obj {item : Dict} {target : String} : Exports names (.obj item) target ↔
    isCompartmentExport item = true ∧ item.lookup "compartment_name" = some (.str target) ∧
      target ∈ names := by
  rw [isCompartmentExport_iff]
  constructor
  · rintro ⟨_, ⟨⟩, h⟩
    exact h
  · intro h
    exact ⟨item, rfl, h⟩

theorem mem_update_insert {target a b : String} :
    b ∈ Function.update sets source (insert target (sets source)) a ↔
      b ∈ sets a ∨ (a = source ∧ b = target) := by
  rw [Function.update_apply]
  split_ifs with ha
  · rw [ha, Finset.mem_insert, or_comm, and_iff_right rfl]
  · simp [ha]

/-- One import adds its edge. -/
theorem addImport_iff {item : Json} (h : addImport names source sets item = .ok sets')
    (a b : String) :
    b ∈ sets' a ↔ b ∈ sets a ∨ (a = source ∧ Exports names item b) := by
  rw [addImport.eq_def] at h
  split at h
  next item =>
    rw [exports_obj]
    split_ifs at h with hkind
    · split at h
      next target htarget =>
        split_ifs at h with hmem
        · cases h
          rw [mem_update_insert, htarget]
          aesop
        · cases h
          rw [htarget]
          aesop
      next => cases h
      next => cases h
      next hnot _ _ =>
        cases h
        exact (or_iff_left fun hb => hnot b hb.2.2.1).symm
    · cases h
      exact (or_iff_left fun hb => hkind hb.2.1).symm
  next hnot =>
    cases h
    refine (or_iff_left ?_).symm
    rintro ⟨-, fields, rfl, -⟩
    exact hnot fields rfl

theorem mem_getD_nil {α : Type*} {o : Option (List α)} {a : α} :
    a ∈ o.getD [] ↔ ∃ l, o = some l ∧ a ∈ l := by
  cases o <;> simp

theorem mem_importsOf {value item : Json} : item ∈ importsOf value ↔
    ∃ fields imports, value = .obj fields ∧ fields.lookup "imports" = some (.arr imports) ∧
      item ∈ imports := by
  simp only [importsOf, mem_getD_nil, Option.bind_eq_some_iff, Json.dict?_eq_some,
    Json.list?_eq_some]
  aesop

/-- One compartment adds its edges. -/
theorem addImports_iff {entry : String × Json} (h : addImports names sets entry = .ok sets')
    (a b : String) :
    b ∈ sets' a ↔ b ∈ sets a ∨ ∃ item ∈ importsOf entry.2, a = entry.1 ∧ Exports names item b :=
  foldlM_ok_iff (P := fun sets => b ∈ sets a) (fun _ _ _ hadd => addImport_iff hadd a b) h

variable {report : Report} {g : Graph String}

theorem imports_iff {a b : String} : Imports report a b ↔
    ∃ entry ∈ report.compartments, ∃ item ∈ importsOf entry.2, a = entry.1 ∧
      Exports report.names item b := by
  simp only [mem_importsOf]
  constructor
  · rintro ⟨value, imports, item, hentry, himports, hitem, hexports⟩
    exact ⟨_, hentry, item, ⟨value, imports, rfl, himports, hitem⟩, rfl, hexports⟩
  · rintro ⟨⟨_, _⟩, hentry, item, ⟨value, imports, rfl, himports, hitem⟩, rfl, hexports⟩
    exact ⟨value, imports, item, hentry, himports, hitem, hexports⟩

/-- **The graph is that of the report.** -/
theorem edge_iff_imports (h : buildGraph report = .ok g) (a b : String) :
    g.Edge a b ↔ Imports report a b := by
  rw [buildGraph] at h
  cases hloop : report.compartments.foldlM (addImports report.names) fun _ => ∅ with
  | error e =>
    rw [hloop] at h
    cases h
  | ok sets =>
    rw [hloop] at h
    cases h
    have hsets := foldlM_ok_iff (P := fun sets => b ∈ sets a)
      (fun _ _ _ hround => addImports_iff hround a b) hloop
    rw [imports_iff, Graph.Edge, Graph.get]
    split_ifs with hkey
    · rw [hsets, or_iff_right (Finset.notMem_empty b)]
    · refine iff_of_false (Finset.notMem_empty b) ?_
      rintro ⟨entry, hentry, _, _, rfl, _⟩
      exact hkey (List.mem_toFinset.mpr (List.mem_map_of_mem hentry))

/-! ### When the graph cannot be built -/

/-- One import fails if its compartment cannot be looked up. -/
theorem addImport_error_iff (sets : String → Finset String) (item : Json) :
    (∃ e, addImport names source sets item = .error e) ↔ UnhashableExport item := by
  rw [addImport.eq_def]
  split
  next fields =>
    have hexport : UnhashableExport (.obj fields) ↔ isCompartmentExport fields = true ∧
        ∃ name, fields.lookup "compartment_name" = some name ∧ name.hashable = false := by
      simp [UnhashableExport, isCompartmentExport_iff]
    rw [hexport]
    split_ifs with hkind
    · cases hname : fields.lookup "compartment_name" with
      | none => simp
      | some name =>
        cases name
        case str target =>
          dsimp only
          split_ifs <;> simp [hkind, Json.hashable]
        all_goals simp [hkind, Json.hashable]
    · simp [hkind]
  next hnot =>
    refine iff_of_false ?_ ?_
    · rintro ⟨e, ⟨⟩⟩
    · rintro ⟨fields, name, rfl, -⟩
      exact hnot fields rfl

/-- The imports of a compartment fail if one of them does. -/
theorem addImports_error_iff (sets : String → Finset String) (entry : String × Json) :
    (∃ e, addImports names sets entry = .error e) ↔
      ∃ item ∈ importsOf entry.2, UnhashableExport item :=
  foldlM_error_iff addImport_error_iff (importsOf entry.2) sets

/-- **The graph cannot be built** if some import cannot be looked up. -/
theorem buildGraph_error_iff : (∃ e, buildGraph report = .error e) ↔ UnhashableTarget report := by
  have hloop : (∃ e, buildGraph report = .error e) ↔
      ∃ e, (report.compartments.foldlM (addImports report.names) fun _ => ∅) = .error e := by
    rw [buildGraph]
    cases report.compartments.foldlM (addImports report.names) fun _ => ∅ with
    | error e => exact iff_of_true ⟨e, rfl⟩ ⟨e, rfl⟩
    | ok sets =>
      refine iff_of_false ?_ ?_ <;> rintro ⟨e, ⟨⟩⟩
  rw [hloop, foldlM_error_iff addImports_error_iff]
  simp only [mem_importsOf]
  constructor
  · rintro ⟨⟨source, _⟩, hentry, item, ⟨value, imports, rfl, himports, hitem⟩, hexport⟩
    exact ⟨source, value, imports, item, hentry, himports, hitem, hexport⟩
  · rintro ⟨source, value, imports, item, hentry, himports, hitem, hexport⟩
    exact ⟨_, hentry, item, ⟨value, imports, rfl, himports, hitem⟩, hexport⟩

/-! ### The roots are those of the report -/

theorem entryOf_eq_some {thread : Json} {root : String} : entryOf thread = some root ↔
    ∃ fields entry, thread = .obj fields ∧ fields.lookup "entry_point" = some (.obj entry) ∧
      entry.lookup "compartment_name" = some (.str root) := by
  simp only [entryOf, Option.bind_eq_some_iff, Json.dict?_eq_some, Json.str?_eq_some]
  aesop

/-- **The roots are the entry compartments.** -/
theorem mem_threadRoots {root : String} : root ∈ threadRoots report ↔ IsEntry report root := by
  rw [threadRoots, foldl_iff (P := (root ∈ ·)) (Q := fun thread => entryOf thread = some root)]
  · simp only [List.not_mem_nil, false_or, mem_getD_nil, Option.bind_eq_some_iff,
      Json.list?_eq_some, entryOf_eq_some, IsEntry]
    aesop
  · intro roots thread
    cases entryOf thread with
    | none => simp
    | some compartment =>
      dsimp only
      split_ifs with hmem
      · refine (or_iff_left_of_imp ?_).symm
        rintro ⟨⟩
        exact hmem
      · simp [eq_comm]

theorem threadRoots_ne_nil (h : ∃ root, IsEntry report root) : threadRoots report ≠ [] := by
  obtain ⟨root, hroot⟩ := h
  exact List.ne_nil_of_mem (mem_threadRoots.mpr hroot)

/-! ### The depth and the cycles -/

theorem edge_eq_imports (h : buildGraph report = .ok g) : g.Edge = Imports report := by
  funext a b
  exact propext (edge_iff_imports h a b)

/-- **The depth is that of a longest path** from an entry compartment. -/
theorem isGreatest_maximumDepth (h : buildGraph report = .ok g) (hroots : threadRoots report ≠ []) :
    IsGreatest (callDepths report) (maximumDepth (threadRoots report) g) := by
  have hle : ∀ n, n ≤ maximumDepth (threadRoots report) g ↔
      n ≤ 0 ∨ ∃ root ∈ threadRoots report, n ≤ (longestSimplePath root g).1.length - 1 :=
    fun n => foldl_iff (fun _ _ => le_max_iff) _ _
  constructor
  · have hmax : ∃ root ∈ threadRoots report,
        maximumDepth (threadRoots report) g ≤ (longestSimplePath root g).1.length - 1 := by
      rcases (hle _).mp le_rfl with hzero | hroot
      · obtain ⟨root, hroot⟩ := List.exists_mem_of_ne_nil _ hroots
        exact ⟨root, hroot, hzero.trans (Nat.zero_le _)⟩
      · exact hroot
    obtain ⟨root, hroot, hdepth⟩ := hmax
    have hpath := isSimplePath_best g root
    have hpos := List.length_pos_of_ne_nil hpath.ne_nil
    have hback := (hle ((longestSimplePath root g).1.length - 1)).mpr (.inr ⟨root, hroot, le_rfl⟩)
    rw [edge_eq_imports h] at hpath
    exact ⟨root, _, mem_threadRoots.mp hroot, hpath, by omega⟩
  · rintro n ⟨root, p, hentry, hpath, hlength⟩
    rw [← edge_eq_imports h] at hpath
    have hbest := length_le_best hpath
    exact (hle n).mpr (.inr ⟨root, mem_threadRoots.mpr hentry, by omega⟩)

/-- Cycles are found if an entry compartment reaches one. -/
theorem allCycles_ne_empty (h : buildGraph report = .ok g) :
    allCycles (threadRoots report) g ≠ ∅ ↔ ReachesCycle report := by
  have hmem : ∀ c, c ∈ allCycles (threadRoots report) g ↔
      c ∈ (∅ : Finset (List String)) ∨ ∃ root ∈ threadRoots report,
        c ∈ (longestSimplePath root g).2 := by
    intro c
    exact foldl_iff (P := (c ∈ ·)) (f := fun cycles root => cycles ∪ (longestSimplePath root g).2)
      (fun _ _ => Finset.mem_union) _ _
  rw [← Finset.nonempty_iff_ne_empty, ReachesCycle, ← edge_eq_imports h]
  constructor
  · rintro ⟨c, hc⟩
    rcases (hmem c).mp hc with hc | ⟨root, hroot, hc⟩
    · exact absurd hc (Finset.notMem_empty c)
    · obtain ⟨l, -, hcycle, hreach⟩ := isSimpleCycle_of_mem_cycles hc
      obtain ⟨x, hx⟩ := List.exists_mem_of_ne_nil l hcycle.ne_nil
      exact ⟨root, l, mem_threadRoots.mp hroot, hcycle, x, hx, hreach x hx⟩
  · rintro ⟨root, l, hentry, hcycle, x, hx, hreach⟩
    obtain ⟨l', -, hc⟩ := exists_mem_cycles hcycle hx hreach
    exact ⟨close l', (hmem _).mpr (.inr ⟨root, mem_threadRoots.mpr hentry, hc⟩)⟩

/-! ### The gate -/

@[simp] theorem loadReport_report (report : Report) :
    loadReport (.ok (.obj report.fields)) = .ok report := by
  obtain ⟨fields, compartments, h⟩ := report
  simp only [loadReport]
  split
  next compartments' h' =>
    cases h.symm.trans h'
    rfl
  next hnot => exact absurd h (hnot compartments)

/-- The largest value is below a bound if all of them are. -/
theorem any_max?_lt {values : List ℕ} {bound : ℤ} :
    values.max?.any (fun largest : ℕ => (largest : ℤ) < bound) = true ↔
      values ≠ [] ∧ ∀ v ∈ values, (v : ℤ) < bound := by
  cases hmax : values.max? with
  | none =>
    rw [List.max?_eq_none_iff] at hmax
    simp [hmax]
  | some largest =>
    obtain ⟨hmem, hle⟩ := List.max?_eq_some_iff.mp hmax
    rw [Option.any_some, decide_eq_true_iff]
    constructor
    · intro hlt
      exact ⟨List.ne_nil_of_mem hmem, fun v hv => lt_of_le_of_lt (Int.ofNat_le.mpr (hle v hv)) hlt⟩
    · rintro ⟨-, hall⟩
      exact hall largest hmem

variable {py : Python} {args : Args} {text : List Char} {values : List ℕ}

/-- **What the program returns** for a report with a thread. -/
theorem main_eq (hreserve : 0 ≤ args.reserve) (hgraph : buildGraph report = .ok g)
    (hroots : threadRoots report ≠ []) (hvalues : parseXmakeFrames py text = .ok values) :
    main py args (.ok (.obj report.fields)) (some (.ok text)) =
      .ok (exitCode args (recommendation args.reserve (maximumDepth (threadRoots report) g))
        (allCycles (threadRoots report) g) values) := by
  rw [main, if_neg (Int.not_lt.mpr hreserve), loadReport_report]
  simp only [hgraph, hvalues]
  exact if_neg hroots

variable (py args text) in
/-- **When the program raises**, for a report with a thread. -/
theorem main_error_iff (hreserve : 0 ≤ args.reserve) (hroots : threadRoots report ≠ []) :
    (∃ e, main py args (.ok (.obj report.fields)) (some (.ok text)) = .error e) ↔
      UnhashableTarget report ∨ TooLong py text := by
  rw [← buildGraph_error_iff, ← parseXmakeFrames_error_iff]
  cases hgraph : buildGraph report with
  | error e =>
    refine iff_of_true ⟨e, ?_⟩ (.inl ⟨e, rfl⟩)
    rw [main, if_neg (Int.not_lt.mpr hreserve), loadReport_report]
    simp only [hgraph]
    rfl
  | ok g =>
    cases hvalues : parseXmakeFrames py text with
    | error e =>
      refine iff_of_true ⟨e, ?_⟩ (.inr ⟨e, rfl⟩)
      rw [main, if_neg (Int.not_lt.mpr hreserve), loadReport_report]
      simp only [hgraph, hvalues]
      exact if_neg hroots
    | ok values =>
      rw [main_eq hreserve hgraph hroots hvalues]
      refine iff_of_false ?_ ?_
      · rintro ⟨e, ⟨⟩⟩
      · rintro (⟨e, ⟨⟩⟩ | ⟨e, ⟨⟩⟩)

/-- A run that does not raise has built the graph and read the values. -/
theorem exists_ok_of_not_raised (h : ¬ (UnhashableTarget report ∨ TooLong py text)) :
    ∃ g values, buildGraph report = .ok g ∧ parseXmakeFrames py text = .ok values := by
  rw [not_or, ← buildGraph_error_iff, ← parseXmakeFrames_error_iff] at h
  cases hgraph : buildGraph report with
  | error e => exact absurd ⟨e, hgraph⟩ h.1
  | ok g =>
    cases hvalues : parseXmakeFrames py text with
    | error e => exact absurd ⟨e, hvalues⟩ h.2
    | ok values => exact ⟨g, values, rfl, rfl⟩

/-- The program returns zero, with `--check`, if no cycle stops it and not all values are too
small. -/
theorem exitCode_check (strict : Bool) (reserve bound : ℤ) (cycles : Finset (List String)) :
    exitCode ⟨reserve, true, strict⟩ bound cycles values = 0 ↔
      ¬ (strict = true ∧ cycles ≠ ∅) ∧ (values = [] ∨ ∃ v ∈ values, bound ≤ (v : ℤ)) := by
  rw [exitCode]
  split_ifs with hcycle hlow
  · exact iff_of_false id fun h => h.1 hcycle
  · obtain ⟨hne, hall⟩ := any_max?_lt.mp hlow.2
    refine iff_of_false id ?_
    rintro ⟨-, hnil | ⟨v, hv, hbound⟩⟩
    · exact hne hnil
    · exact absurd (hall v hv) (not_lt.mpr hbound)
  · refine iff_of_true rfl ⟨hcycle, ?_⟩
    by_contra hnot
    rw [not_or, not_exists] at hnot
    exact hlow ⟨rfl, any_max?_lt.mpr ⟨hnot.1, fun v hv => not_le.mp fun hle => hnot.2 v ⟨hv, hle⟩⟩⟩

theorem recommendation_le_iff {r d v : ℕ} : recommendation r d ≤ (v : ℤ) ↔ max 1 (r + d) ≤ v := by
  rw [recommendation]
  omega

section Gate

variable {strict : Bool} {r d : ℕ} (hentry : ∃ root, IsEntry report root)
  (hd : IsGreatest (callDepths report) d)
include hentry hd

/-- **What the program returns** with `--check`: zero if no cycle stops it and some value is large
enough, or there is none. -/
theorem main_check_iff (hgraph : buildGraph report = .ok g)
    (hvalues : parseXmakeFrames py text = .ok values) :
    main py ⟨r, true, strict⟩ (.ok (.obj report.fields)) (some (.ok text)) = .ok 0 ↔
      ¬ (strict = true ∧ ReachesCycle report) ∧
        ((∀ v, ¬ Assigns py text v) ∨ ∃ v, Assigns py text v ∧ max 1 (r + d) ≤ v) := by
  have hroots := threadRoots_ne_nil hentry
  have hdepth : maximumDepth (threadRoots report) g = d :=
    (isGreatest_maximumDepth hgraph hroots).unique hd
  rw [main_eq (Int.natCast_nonneg r) hgraph hroots hvalues, Except.ok.injEq, exitCode_check, hdepth,
    allCycles_ne_empty hgraph, List.eq_nil_iff_forall_not_mem]
  simp only [mem_parseXmakeFrames hvalues, recommendation_le_iff]

/-- **The gate.** With `--check` the program returns zero only if every value is at least the
recommendation, exactly if an import of the report cannot be looked up, or a number in the file is
too long, or `--strict` stops it at a cycle, or the values are all large enough or all too small. -/
theorem check_passes_iff :
    (main py ⟨r, true, strict⟩ (.ok (.obj report.fields)) (some (.ok text)) = .ok 0 →
      ∀ v, Assigns py text v → max 1 (r + d) ≤ v) ↔
    UnhashableTarget report ∨ TooLong py text ∨ (strict = true ∧ ReachesCycle report) ∨
      (∀ v, Assigns py text v → max 1 (r + d) ≤ v) ∨
      ∀ v, Assigns py text v → v < max 1 (r + d) := by
  have hraised := main_error_iff py ⟨r, true, strict⟩ text (Int.natCast_nonneg r)
    (threadRoots_ne_nil hentry)
  rw [← or_assoc]
  by_cases hraise : UnhashableTarget report ∨ TooLong py text
  · obtain ⟨e, he⟩ := hraised.mpr hraise
    refine iff_of_true ?_ (.inl hraise)
    rw [he]
    rintro ⟨⟩
  · obtain ⟨g, values, hgraph, hvalues⟩ := exists_ok_of_not_raised hraise
    rw [or_iff_right hraise, main_check_iff hentry hd hgraph hvalues]
    constructor
    · intro hgate
      by_cases hcycle : strict = true ∧ ReachesCycle report
      · exact .inl hcycle
      · by_cases hlarge : ∃ v, Assigns py text v ∧ max 1 (r + d) ≤ v
        · exact .inr (.inl (hgate ⟨hcycle, .inr hlarge⟩))
        · exact .inr (.inr fun v hv => not_le.mp fun hle => hlarge ⟨v, hv, hle⟩)
    · rintro (hcycle | hall | hlow) ⟨hnocycle, hvalue⟩ v hv
      · exact absurd hcycle hnocycle
      · exact hall v hv
      · rcases hvalue with hnone | ⟨w, hw, hle⟩
        · exact absurd hv (hnone v)
        · exact absurd (hlow w hw) (not_lt.mpr hle)

end Gate

/-! ### Two threads -/

/-- A compartment that imports an export of `target`. -/
def importer (target : String) : Json :=
  .obj [("imports",
    .arr [.obj [("kind", .str "CompartmentExport"), ("compartment_name", .str target)]])]

/-- Three compartments in a row, with a thread that enters the first. -/
def chain : Report where
  fields :=
    [("compartments",
        .obj [("main", importer "alloc"), ("alloc", importer "sched"), ("sched", .obj [])]),
      ("threads", .arr [.obj [("entry_point", .obj [("compartment_name", .str "main")])]])]
  compartments := [("main", importer "alloc"), ("alloc", importer "sched"), ("sched", .obj [])]
  lookup_compartments := rfl

theorem isEntry_chain : IsEntry chain "main" := mem_threadRoots.mp (by decide)

theorem isGreatest_chain : IsGreatest (callDepths chain) 2 := by
  have hdepth : (buildGraph chain).map (maximumDepth (threadRoots chain)) = .ok 2 := by
    decide +kernel
  cases hgraph : buildGraph chain with
  | error e =>
    rw [hgraph] at hdepth
    cases hdepth
  | ok g =>
    rw [hgraph] at hdepth
    have hgreatest := isGreatest_maximumDepth hgraph (threadRoots_ne_nil ⟨"main", isEntry_chain⟩)
    rwa [Except.ok.inj hdepth] at hgreatest

/-- A file with one thread of three frames. -/
def oneThread : List Char := "trusted_stack_frames = 3".toList

theorem check_passes_oneThread :
    IsGreatest (callDepths chain) 2 ∧
      (main .ascii ⟨1, true, false⟩ (.ok (.obj chain.fields)) (some (.ok oneThread)) = .ok 0 →
        ∀ v, Assigns .ascii oneThread v → max 1 (1 + 2) ≤ v) := by
  have hvalues : parseXmakeFrames .ascii oneThread = .ok [3] := by decide +kernel
  have hall : ∀ v, Assigns .ascii oneThread v → max 1 (1 + 2) ≤ v := by
    intro v hv
    rw [← mem_parseXmakeFrames hvalues, List.mem_singleton] at hv
    exact hv.ge
  refine ⟨isGreatest_chain, ?_⟩
  exact (check_passes_iff (r := 1) ⟨"main", isEntry_chain⟩ isGreatest_chain).mpr
    (.inr (.inr (.inr (.inl hall))))

/-- A file with two threads, one of a frame and one of three. -/
def twoThreads : List Char := "trusted_stack_frames = 1, trusted_stack_frames = 3".toList

/-- Three frames are recommended. The check passes, since one of the threads has them. -/
theorem twoThreads_pass :
    main .ascii ⟨1, true, false⟩ (.ok (.obj chain.fields)) (some (.ok twoThreads)) = .ok 0 ∧
      (∃ root, IsEntry chain root) ∧ IsGreatest (callDepths chain) 2 ∧
      Assigns .ascii twoThreads 1 ∧ ¬ max 1 (1 + 2) ≤ 1 := by
  have hvalues : parseXmakeFrames .ascii twoThreads = .ok [1, 3] := by decide +kernel
  refine ⟨by decide +kernel, ⟨"main", isEntry_chain⟩, isGreatest_chain, ?_, by decide⟩
  exact (mem_parseXmakeFrames hvalues).mp (by decide)

end TrustedStack

end Croc
