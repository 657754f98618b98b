import Bentobox.Engine.Commit
import Bentobox.Sdk.Interference
import Bentobox.Sdk.Orders
import Bentobox.Sdk.Plotters
import Bentobox.Sdk.Transformed

/-!
# Functions that look their entities up

A function that is given to a simulation gets a plotter. It looks up the entities that it works on,
and then its statements plot a graph (`PlotterFn.compileGraph`). Called directly it is executed on
the values of the attributes, and what it has stored is committed (`PlotterFn.call`). Where the
function is compiled accurately, its graph does on the engine what calling it does
(`PlotterFn.runGraph_of_accurate`).
-/
namespace Bentobox.Sdk

/-! ## The function -/

/-- A name is none of the variables, and an attribute is one of a variable. -/
def Symbol.UsesVariables (vs : List String) : Symbol → Prop
  | name id => id ∉ vs
  | attr entity _ _ => entity ∈ vs

/-- `variable = g.entity(components)` for each of the lookups, and then the statements. The names
are identifiers of Python, and generated code does not use them. -/
structure PlotterFn where
  lookups : List (String × List String)
  componentName : String → String
  body : Block Unit
  slashFree : ∀ symbol ∈ body.symbols, symbol.SlashFree
  uses : ∀ symbol ∈ body.symbols, symbol.UsesVariables (lookups.map Prod.fst)
  unreserved : ∀ v ∈ lookups.map Prod.fst ++ body.symbols.map Symbol.base, v ∉ Gast.reserved

/-- What compiling raises. -/
inductive CompileError
  | entity (x : EntityError)
  | raised (x : Gast.Raised)

namespace PlotterFn
variable (fn : PlotterFn)

/-- The components that the entity of a variable was looked up with, by the last of its lookups. -/
def components (v : String) : Option (List String) :=
  (fn.lookups.reverse.find? fun l => decide (l.1 = v)).map Prod.snd

variable {fn}

theorem mem_lookups_of_components {v : String} {components : List String}
    (h : fn.components v = some components) : (v, components) ∈ fn.lookups := by
  obtain ⟨l, hl, rfl⟩ := Option.map_eq_some_iff.mp h
  have hv : l.1 = v := by simpa using List.find?_some hl
  rw [← hv]
  exact List.mem_reverse.mp (List.mem_of_find?_eq_some hl)

theorem components_eq_none {v : String} (h : v ∉ fn.lookups.map Prod.fst) :
    fn.components v = none := by
  cases hc : fn.components v with
  | none => rfl
  | some components => exact (h (List.mem_map_of_mem (mem_lookups_of_components hc))).elim

theorem exists_components {v : String} (h : v ∈ fn.lookups.map Prod.fst) :
    ∃ components, fn.components v = some components := by
  obtain ⟨l, hl, rfl⟩ := List.mem_map.mp h
  rw [← Option.isSome_iff_exists, components, Option.isSome_map, List.find?_isSome]
  exact ⟨l, List.mem_reverse.mpr hl, decide_eq_true rfl⟩

variable (fn)

/-- The entities that the variables hold when they are looked up in a plotter. -/
def scope (g : Plot.Plotter) : Scope where
  entities v := (fn.components v).bind fun components =>
    (g.entity components).toOption.map fun e => ⟨e.entityId, e.componentMap.keys⟩
  componentName := fn.componentName

/-- The entities that the variables stand for: of those with the components, the last one. -/
def definedScope (entityDefs : List EntityDef) : Scope where
  entities v := (fn.components v).bind fun components =>
    (entityDefs.reverse.find? fun d => decide (d.components.toFinset = components.toFinset)).map
      fun d => ⟨d.id, d.components⟩
  componentName := fn.componentName

/-- The statements of the function behind its lookups. -/
def onPlotter (g : Plot.Plotter) : ConvertFn where
  scope := fn.scope g
  body := fn.body
  slashFree := fn.slashFree
  locals := fun id hid => by
    have hvar : id ∉ fn.lookups.map Prod.fst := fn.uses _ hid
    simp only [scope, components_eq_none hvar, Option.bind_none]

/-- `compile_graph`, where calls may nest to the given depth. -/
def compileGraph (py : Python) (depth : ℕ) (fn : PlotterFn) (entityDefs : List EntityDef)
    (componentDefs : List ComponentDef) : Except CompileError Graph := do
  let g ← (Plot.Plotter.init entityDefs componentDefs).mapError .entity
  let _ ← (fn.lookups.mapM fun l => g.entity l.2).mapError .entity
  let r ← ((fn.onPlotter g).runGenerated py depth).mapError .raised
  return r.graph

/-- What compiling takes. -/
theorem compileGraph_eq_ok {fn : PlotterFn} {py : Python} {depth : ℕ} {entityDefs : List EntityDef}
    {componentDefs : List ComponentDef} {graph : Graph}
    (h : fn.compileGraph py depth entityDefs componentDefs = .ok graph) :
    ∃ g r, Plot.Plotter.init entityDefs componentDefs = .ok g ∧
      (∀ l ∈ fn.lookups, ∃ e, g.entity l.2 = .ok e) ∧
      (fn.onPlotter g).runGenerated py depth = .ok r ∧ r.graph = graph := by
  obtain ⟨g, hg, h⟩ := Fallible.result_bind_eq_ok_iff.mp h
  obtain ⟨es, hes, h⟩ := Fallible.result_bind_eq_ok_iff.mp h
  obtain ⟨r, hr, h⟩ := Fallible.result_bind_eq_ok_iff.mp h
  cases h
  have hlookups := Fallible.mapM_eq_ok (Fallible.mapError_eq_ok_iff.mp hes)
  refine ⟨g, r, Fallible.mapError_eq_ok_iff.mp hg, fun l hl => ?_,
    Fallible.mapError_eq_ok_iff.mp hr, rfl⟩
  obtain ⟨i, hi, rfl⟩ := List.getElem_of_mem hl
  exact ⟨_, (List.forall₂_iff_get.mp hlookups).2 i hi (hlookups.length_eq ▸ hi)⟩

end PlotterFn

/-! ## Direct calls -/

/-- Where the symbols stand for the same places, a block is executed alike. -/
theorem Block.exec_congr {α : Type} {F : FloatOps} {sc sc' : Scope}
    (h : ∀ symbol, sc.place symbol = sc'.place symbol) (b : Block α) (m : Memory) :
    b.exec F sc m = b.exec F sc' m := by
  have hvalue : sc.value = sc'.value := by
    funext m symbol
    rw [Scope.value, Scope.value, h]
  induction b generalizing m with
  | done => rfl
  | assign target value rest ih => simp only [exec, hvalue, h, ih]
  | ifelse a test body orelse rest hbody horelse hrest =>
    simp only [exec, hvalue, hbody, horelse, hrest]

/-- Execute the function on the values of the attributes. In the end every attribute that is
stored in it, in whichever branch, takes its final value. -/
def PlotterFn.call (F : FloatOps) (entityDefs : List EntityDef) (m : AttributeMap)
    (fn : PlotterFn) : Option AttributeMap := do
  let sc := fn.definedScope entityDefs
  let final ← fn.body.exec F sc (Memory.start m.valuation)
  m.commit F (fun ref => final (.attr ref)) (sc.attrRefs fn.body.stores)

/-! ## What is recorded -/

namespace ConvertFn
variable {F : FloatOps} {py : Python} {fn : ConvertFn} {σ : Valuation} {r : Recorder}
  {final : Memory}

/-- The outputs are those of attributes that the function stores, with the final values; what it
stores without an output has its value in the end. -/
structure Recorded (F : FloatOps) (fn : ConvertFn) (σ : Valuation) (final : Memory)
    (r : Recorder) : Prop where
  nodup : (r.outputs.values.map Mutate.mutateAttr).Nodup
  stored : ∀ o ∈ r.outputs.values, o.mutateAttr ∈ fn.scope.attrRefs fn.body.stores
  values : ∀ o ∈ r.outputs.values, denote F σ o.toNode = final (.attr o.mutateAttr)
  kept : ∀ ref ∈ fn.scope.attrRefs fn.body.stores,
    ref ∉ r.outputs.values.map Mutate.mutateAttr → final (.attr ref) = σ ref

/-- A function that is compiled soundly records the values of its direct execution. -/
theorem recorded_of_sound (hcompile : fn.compile py = .ok r) (hexec : fn.exec F σ = some final)
    (hsound : fn.Sound F py σ) : Recorded F fn σ final r := by
  have hdefinitions := definitions_of_sound hcompile hexec hsound
  obtain ⟨fr, s, -, rfl, hkeyed, hframed⟩ := keyed_of_compile hcompile
  have hslash : ∀ symbol ∈ fn.body.stores, symbol.SlashFree :=
    fun symbol hm => fn.slashFree symbol (Block.stores_subset_symbols _ hm)
  -- the definition of an attribute that is stored has its final value
  have hval : ∀ ref ∈ fn.scope.attrRefs fn.body.stores,
      denote F σ (Recorder.definition (s.outputs.cell 0) ref) = final (.attr ref) :=
    fun ref hmem => hdefinitions ref (Scope.slash_notMem_of_attrRefs hslash hmem)
  have hstored : ∀ o ∈ (s.outputs.cell 0).values,
      o.mutateAttr ∈ fn.scope.attrRefs fn.body.stores := by
    intro o ho
    have hothers := hframed.filter_recorded Nat.zero_lt_one records_keyed hkeyed hslash
    by_contra hno
    have hmem : o.mutateAttr ∈ s.recorded.filter (· ∉ fn.scope.attrRefs fn.body.stores) :=
      List.mem_filter.mpr ⟨List.mem_map_of_mem ho, decide_eq_true hno⟩
    rw [hothers] at hmem
    cases hmem
  refine ⟨hkeyed.nodup_recorded, hstored, fun o ho => ?_, fun ref href hno => ?_⟩
  · obtain ⟨⟨key, o'⟩, hentry, rfl⟩ := List.mem_map.mp ho
    rw [← hval _ (hstored _ ho), Recorder.definition, ← (hkeyed.of_mem hentry).1,
      OrderedDict.get?_eq_some_iff.mpr hentry]
  · rw [← hval ref href, Recorder.definition]
    cases ho : (s.outputs.cell 0).get? (toStrAttr ref) with
    | none => rfl
    | some o =>
      have hentry := OrderedDict.get?_eq_some_iff.mp ho
      obtain ⟨hkey, hname⟩ := hkeyed.of_mem hentry
      rw [toStrAttr_injective (Scope.slash_notMem_of_attrRefs hslash href) hname hkey] at hno
      exact (hno (List.mem_map_of_mem (List.mem_map_of_mem hentry))).elim

end ConvertFn

/-! ## Graphs and calls -/

namespace PlotterFn
variable {F : FloatOps} {py : Python} {depth : ℕ} {fn : PlotterFn} {entityDefs : List EntityDef}
  {componentDefs : List ComponentDef} {g : Plot.Plotter}

/-- A variable that is looked up in a plotter stands for the entity of its definition. -/
theorem attrRef_scope (hg : Plot.Plotter.init entityDefs componentDefs = .ok g)
    (hlookups : ∀ l ∈ fn.lookups, ∃ e, g.entity l.2 = .ok e) (v component attributeName : String) :
    (fn.scope g).attrRef v component attributeName =
      (fn.definedScope entityDefs).attrRef v component attributeName := by
  simp only [Scope.attrRef, scope, definedScope]
  cases hc : fn.components v with
  | none => rfl
  | some components =>
    obtain ⟨e, he⟩ := hlookups _ (mem_lookups_of_components hc)
    obtain ⟨d, hd, hid, hnames⟩ := Plot.Plotter.find?_of_entity hg he
    simp only [Option.bind_some, Fallible.toOption_eq_some_iff.mpr he, hd, Option.map_some, hid]
    exact if_congr (hnames _) rfl rfl

theorem place_scope (hg : Plot.Plotter.init entityDefs componentDefs = .ok g)
    (hlookups : ∀ l ∈ fn.lookups, ∃ e, g.entity l.2 = .ok e) (symbol : Symbol) :
    (fn.scope g).place symbol = (fn.definedScope entityDefs).place symbol := by
  cases symbol with
  | name id => rfl
  | attr v component attributeName =>
    simp only [Scope.place, attrRef_scope hg hlookups]

theorem unreserved_scope (fn : PlotterFn) (g : Plot.Plotter) :
    Gast.Unreserved (fn.scope g) := by
  intro v hv
  have hvar : v ∉ fn.lookups.map Prod.fst := fun hmem =>
    fn.unreserved v (List.mem_append_left _ hmem) hv
  simp only [scope, components_eq_none hvar, Option.bind_none]

theorem known_scope (hlookups : ∀ l ∈ fn.lookups, ∃ e, g.entity l.2 = .ok e) (symbol : Symbol)
    (hm : symbol ∈ fn.body.symbols) : Gast.Known (fn.scope g) symbol := by
  refine ⟨?_, fn.unreserved _ (List.mem_append_right _ (List.mem_map_of_mem hm))⟩
  have huses := fn.uses symbol hm
  cases symbol with
  | name id => simp only [Scope.Knows, scope, components_eq_none huses, Option.bind_none]
  | attr v component attributeName =>
    obtain ⟨components, hc⟩ := exists_components huses
    obtain ⟨e, he⟩ := hlookups _ (mem_lookups_of_components hc)
    simp only [Scope.Knows, scope, hc, Option.bind_some, Fallible.toOption_eq_some_iff.mpr he,
      Option.map_some, Option.isSome_some]

/-- The function is compiled accurately: its if statements nest no deeper than calls may, the trace
is sound on the values of the attributes, and no output reads what one before it stores. -/
structure Accurate (F : FloatOps) (py : Python) (depth : ℕ) (entityDefs : List EntityDef)
    (componentDefs : List ComponentDef) (m : AttributeMap) (fn : PlotterFn) : Prop where
  nesting : Gast.nesting fn.body ≤ depth
  sound : ∀ g, Plot.Plotter.init entityDefs componentDefs = .ok g →
    (fn.onPlotter g).Sound F py m.valuation
  independent : ∀ graph, fn.compileGraph py depth entityDefs componentDefs = .ok graph →
    Independent graph.outputs

/-- The values that a call commits are those that the recorded outputs commit. -/
theorem commit_of_recorded {convertFn : ConvertFn} {m₀ m : AttributeMap} {final : Memory}
    {r : Recorder} (hstable : m₀.Stable)
    (hr : ConvertFn.Recorded F convertFn m₀.valuation final r)
    (hcommit : m₀.commit F (fun ref => final (.attr ref))
      (convertFn.scope.attrRefs convertFn.body.stores) = some m) :
    m₀.commit F (fun ref => final (.attr ref)) (r.outputs.values.map Mutate.mutateAttr) =
      some m := by
  rw [AttributeMap.commit_eq_some_iff] at hcommit ⊢
  obtain ⟨hlayout, hrefs, hothers⟩ := hcommit
  refine ⟨hlayout, fun ref hmem => ?_, fun ref hno => ?_⟩
  · obtain ⟨o, ho, rfl⟩ := List.mem_map.mp hmem
    exact hrefs _ (hr.stored o ho)
  · by_cases hstored : ref ∈ convertFn.scope.attrRefs convertFn.body.stores
    · -- the attribute takes the value that it has
      obtain ⟨w, hw, haccepted⟩ := hrefs ref hstored
      rw [hr.kept ref hstored hno] at haccepted
      obtain ⟨v, hv, hconverted⟩ := Option.bind_eq_some_iff.mp haccepted
      have hvalue : m₀.value ref = some v :=
        AttributeMap.value_of_get (Fallible.toOption_eq_some_iff.mp hv)
      rw [hstable ref v hvalue F] at hconverted
      cases hconverted
      exact hw.trans hvalue.symm
    · exact hothers ref hstored

/-- **A function that is compiled accurately**: its graph does on the engine what calling the
function does. -/
theorem runGraph_of_accurate {s : Env Stores} (hs : s.store.Steady) {graph : Graph}
    (hcompile : fn.compileGraph py depth entityDefs componentDefs = .ok graph)
    (h : fn.Accurate F py depth entityDefs componentDefs s.store.view) {m : AttributeMap}
    (hcall : fn.call F entityDefs s.store.view = some m) :
    ∃ s', runGraph F graph s = (.ok (), s') ∧ s'.store.view = m := by
  obtain ⟨g, r, hg, hlookups, hrun, rfl⟩ := compileGraph_eq_ok hcompile
  obtain ⟨final, hexec, hcommit⟩ := Option.bind_eq_some_iff.mp hcall
  have hplace : ∀ symbol, (fn.scope g).place symbol = (fn.definedScope entityDefs).place symbol :=
    place_scope hg hlookups
  have hcompiled := ConvertFn.compile_of_runGenerated (unreserved_scope fn g)
    (known_scope hlookups) h.nesting hrun
  have hexec' : (fn.onPlotter g).exec F s.store.view.valuation = some final :=
    (Block.exec_congr hplace fn.body _).trans hexec
  have hrecorded := ConvertFn.recorded_of_sound hcompiled hexec' (h.sound g hg)
  have hvalues : ∀ o ∈ r.graph.outputs, denote F s.store.view.valuation o.toNode =
      (fun ref => final (.attr ref)) o.mutateAttr := hrecorded.values
  refine (Stores.runGraph_iff_commit (h.independent _ hcompile) hrecorded.nodup hs.wf hvalues).mpr
    (commit_of_recorded hs.stable hrecorded ?_)
  have hrefs : (fn.onPlotter g).scope.attrRef? = (fn.definedScope entityDefs).attrRef? := by
    funext symbol
    cases symbol with
    | name id => rfl
    | attr v component attributeName =>
      exact congrArg Except.toOption (attrRef_scope hg hlookups v component attributeName)
  rw [Scope.attrRefs, hrefs]
  exact hcommit

end PlotterFn
end Bentobox.Sdk
