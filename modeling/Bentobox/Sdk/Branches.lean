import Bentobox.Lib.Heap
import Bentobox.Sdk.Activity
import Bentobox.Sdk.Recorder

/-!
# Tracing transformed if statements

`transform_ifelse` makes a function of each branch and calls both. A branch gets deep
copies of the symbols that the analysis calls its inputs: a copied entity records its
outputs in a copy of the dictionary, and all other entities are reached through the
closure and record where the caller records. What the branches return is combined by
switch nodes and assigned in the caller.

Dictionaries of outputs are shared by reference, so they are cells of a heap, and a
frame says which cell an entity records in.
-/
namespace Bentobox.Sdk

/-! ## Symbols and what they stand for -/

/-- An entity of the plotter with the names of its components. -/
structure GraphEntity where
  id : EntityId
  components : List String
  deriving DecidableEq, Repr

/-- What the names of a convert function stand for: the variables that hold an entity, and the
component that an expression between brackets names. -/
structure Scope where
  entities : String → Option GraphEntity
  componentName : String → String

/-- What an assignment changes: a local or an attribute. -/
inductive Place
  | name (id : String)
  | attr (attrRef : AttributeRef)
  deriving DecidableEq

namespace Scope

/-- The attribute of `entity[component].attributeName`; `get_component` may fail. -/
def attrRef (sc : Scope) (entity component attributeName : String) :
    Except PythonError AttributeRef :=
  match sc.entities entity with
  | none => .error (.nameError entity)
  | some e =>
    if sc.componentName component ∈ e.components then
      .ok ⟨e.id, sc.componentName component, attributeName⟩
    else
      .error (.keyError ("Cannot get component: Component " ++ sc.componentName component ++
        " not attached for entity"))

def place (sc : Scope) : Symbol → Except PythonError Place
  | .name id => .ok (.name id)
  | .attr entity component attributeName =>
    Place.attr <$> sc.attrRef entity component attributeName

end Scope

/-! ## Frames and records -/

/-- The dictionaries of a plot: one for the inputs, and the outputs with their copies. -/
structure Records where
  inputs : OrderedDict String AttributeRef
  outputs : Heap (OrderedDict String Mutate)

namespace Records

/-- Work on the recorder that uses one of the dictionaries for its outputs. -/
def on {α : Type} (cell : ℕ) (m : Fallible Recorder PythonError α) :
    Fallible Records PythonError α := fun s =>
  ((m ⟨s.inputs, s.outputs.cell cell⟩).1,
    ⟨(m ⟨s.inputs, s.outputs.cell cell⟩).2.inputs,
      s.outputs.set cell (m ⟨s.inputs, s.outputs.cell cell⟩).2.outputs⟩)

/-- `deepcopy` of an entity, of which the dictionary of outputs is copied. -/
def deepcopy (cell : ℕ) : Fallible Records PythonError ℕ := fun s =>
  (.ok s.outputs.next, { s with outputs := s.outputs.alloc (s.outputs.cell cell) })

end Records

/-- The variables that a function sees: its locals and those of the functions around it, and
the dictionaries that its entities record in. -/
structure Frame where
  locals : String → Option Object
  outputs : String → ℕ

namespace Frame

def lookup (fr : Frame) (id : String) : Except PythonError Object :=
  match fr.locals id with
  | some o => .ok o
  | none => .error (.nameError id)

def bind (fr : Frame) (id : String) (o : Object) : Frame :=
  { fr with locals := fun id' => if id' = id then some o else fr.locals id' }

variable (sc : Scope)

/-- Load a symbol. -/
def load (fr : Frame) : Symbol → Fallible Records PythonError Object
  | .name id => Fallible.ofExcept (fr.lookup id)
  | .attr entity component attributeName => do
    let attrRef ← Fallible.ofExcept (sc.attrRef entity component attributeName)
    Records.on (fr.outputs entity) (Recorder.read attrRef)

/-- Store to a symbol. -/
def store (fr : Frame) (o : Object) : Symbol → Fallible Records PythonError Frame
  | .name id => pure (fr.bind id o)
  | .attr entity component attributeName => do
    let attrRef ← Fallible.ofExcept (sc.attrRef entity component attributeName)
    Records.on (fr.outputs entity) (Recorder.write attrRef o)
    pure fr

/-- `target, … = value, …` -/
def storeAll (fr : Frame) : List (Symbol × Object) → Fallible Records PythonError Frame
  | [] => pure fr
  | (target, o) :: rest => do
    let fr ← fr.store sc o target
    fr.storeAll rest

/-- Bind the arguments of a call, which are deep copies of what the caller has. -/
def bindArgs (caller : Frame) : Frame → List String → Fallible Records PythonError Frame
  | callee, [] => pure callee
  | callee, arg :: args =>
    match sc.entities arg with
    | some _ => do
      let cell ← Records.deepcopy (caller.outputs arg)
      bindArgs caller
        { callee with outputs := fun v => if v = arg then cell else callee.outputs v } args
    | none => do
      let o ← Fallible.ofExcept (caller.lookup arg)
      bindArgs caller (callee.bind arg o) args

/-- The frame of a branch when it is called. A variable that is stored in the branch is its own
and unbound, any other variable is the one of the caller. -/
def enter (caller : Frame) (args : List String) (stores : List Symbol) :
    Fallible Records PythonError Frame :=
  caller.bindArgs sc
    { caller with locals := fun id => if .name id ∈ stores then none else caller.locals id } args

/-- Call the function of a branch. -/
def call (caller : Frame) (activity : Block.Activity) (stores : List Symbol)
    (block : Frame → Fallible Records PythonError Frame) :
    Fallible Records PythonError (List Object) := do
  let callee ← caller.enter sc activity.args stores
  let callee ← block callee
  Fallible.mapEach (callee.load sc) activity.returns

end Frame

/-! ## Blocks -/

/-- `[g.switch(condition, if_out, else_out) for if_out, else_out in zip(…)]` -/
def switchOutputs (condition : Object) :
    List Object → List Object → Except PythonError (List Object)
  | ifOut :: ifOutputs, elseOut :: elseOutputs => do
    let o ← Plotter.switch condition ifOut elseOut
    let os ← switchOutputs condition ifOutputs elseOutputs
    pure (o :: os)
  | _, _ => .ok []

/-- A function without `return` returns `None`, which cannot be zipped. -/
def zipOutputs (activity : Block.Activity) (condition : Object)
    (ifOutputs elseOutputs : List Object) : Except PythonError (List Object) :=
  if activity.returns = [] then .error .typeError
  else switchOutputs condition ifOutputs elseOutputs

variable (py : Python) (sc : Scope)

/-- An assignment. -/
def traceAssign (target : Symbol) (value : Expr Symbol) (fr : Frame) :
    Fallible Records PythonError Frame := do
  let o ← value.trace py Fallible.ofExcept (fr.load sc)
  fr.store sc o target

/-- What `transform_ifelse` makes of an if statement with the given branches. -/
def traceIfelse (activity : Block.Activity) (test : Expr Symbol) (body orelse : List Symbol)
    (traceBody traceOrelse : Frame → Fallible Records PythonError Frame) (fr : Frame) :
    Fallible Records PythonError Frame := do
  let condition ← test.trace py Fallible.ofExcept (fr.load sc)
  let ifOutputs ← fr.call sc activity body traceBody
  let elseOutputs ← fr.call sc activity orelse traceOrelse
  let outputs ← Fallible.ofExcept (zipOutputs activity condition ifOutputs elseOutputs)
  fr.storeAll sc (activity.returns.zip outputs)

namespace Block

/-- The run of the transformed block. -/
def trace : Block Activity → Frame → Fallible Records PythonError Frame
  | done, fr => pure fr
  | assign target value rest, fr => do
    let fr ← traceAssign py sc target value fr
    rest.trace fr
  | ifelse activity test body orelse rest, fr => do
    let fr ← traceIfelse py sc activity test body.stores orelse.stores body.trace orelse.trace fr
    rest.trace fr

end Block

/-! ## Loads and stores -/

variable {py sc}

namespace Frame

/-- The object that a symbol stands for. -/
def object (sc : Scope) (fr : Frame) (h : Heap (OrderedDict String Mutate)) :
    Symbol → Except PythonError Object
  | .name id => fr.lookup id
  | .attr entity component attributeName => do
    let attrRef ← sc.attrRef entity component attributeName
    pure (.graphNode (Recorder.definition (h.cell (fr.outputs entity)) attrRef))

theorem load_computes (fr : Frame) (h : Heap (OrderedDict String Mutate)) (symbol : Symbol) :
    Fallible.Computes (fun s : Records => s.outputs = h) (fr.load sc symbol)
      (fr.object sc h symbol) := by
  cases symbol with
  | name id => exact Fallible.Computes.ofExcept _
  | attr entity component attributeName =>
    refine (Fallible.Computes.ofExcept _).bind fun attrRef => ?_
    rintro s rfl
    have hread := Recorder.read_computes (s.outputs.cell (fr.outputs entity)) attrRef
      ⟨s.inputs, s.outputs.cell (fr.outputs entity)⟩ rfl
    refine ⟨hread.1, ?_⟩
    simp only [Records.on, hread.2, Heap.set_cell]

/-- Evaluating an expression changes no outputs. -/
theorem trace_eq_ok {fr : Frame} {e : Expr Symbol} {s s' : Records} {o : Object}
    (h : e.trace py Fallible.ofExcept (fr.load sc) s = (.ok o, s')) :
    e.object py (fr.object sc s.outputs) = .ok o ∧ s'.outputs = s.outputs := by
  have hc := @Expr.trace_computes _ _ _ py _ _ (@load_computes sc fr s.outputs) e s rfl
  rw [h] at hc
  exact ⟨hc.1.symm, hc.2⟩

theorem store_name {fr fr' : Frame} {id : String} {o : Object} {s s' : Records}
    (h : fr.store sc o (.name id) s = (.ok fr', s')) : fr' = fr.bind id o ∧ s' = s := by
  cases h
  exact ⟨rfl, rfl⟩

/-- Storing to an attribute is `set_attr` on the dictionary of the entity. -/
theorem store_attr {fr fr' : Frame} {entity component attributeName : String} {o : Object}
    {s s' : Records} (h : fr.store sc o (.attr entity component attributeName) s = (.ok fr', s')) :
    ∃ ref n, sc.attrRef entity component attributeName = .ok ref ∧ o.wrap = .ok n ∧ fr' = fr ∧
      s'.outputs = s.outputs.set (fr.outputs entity)
        (Recorder.setAttr ref n ⟨s.inputs, s.outputs.cell (fr.outputs entity)⟩).outputs := by
  obtain ⟨ref, s₁, href, h⟩ := Fallible.bind_eq_ok_iff.mp h
  obtain ⟨hok, rfl⟩ := Prod.ext_iff.mp href
  obtain ⟨_, s₂, hon, h⟩ := Fallible.bind_eq_ok_iff.mp h
  cases h
  simp only [Records.on, Recorder.write] at hon
  cases hn : o.wrap with
  | error e => rw [hn] at hon; cases hon
  | ok n => rw [hn] at hon; cases hon; exact ⟨ref, n, hok, rfl, rfl, rfl⟩

/-- A list of loads changes no outputs and returns what the symbols stand for. -/
theorem mapEach_load_eq_ok {fr : Frame} {symbols : List Symbol} {s s' : Records}
    {os : List Object} (h : Fallible.mapEach (fr.load sc) symbols s = (.ok os, s')) :
    List.Forall₂ (fun symbol o => fr.object sc s.outputs symbol = .ok o) symbols os ∧
      s'.outputs = s.outputs := by
  induction symbols generalizing s os with
  | nil => cases h; exact ⟨.nil, rfl⟩
  | cons symbol symbols ih =>
    obtain ⟨o, s₁, hload, h⟩ := Fallible.bind_eq_ok_iff.mp h
    obtain ⟨os', s₂, hrest, h⟩ := Fallible.bind_eq_ok_iff.mp h
    cases h
    have hc := @load_computes sc fr s.outputs symbol s rfl
    rw [hload] at hc
    obtain ⟨ho, hs⟩ := hc
    obtain ⟨hos, hs'⟩ := ih hrest
    rw [show s₁.outputs = s.outputs from hs] at hos hs'
    exact ⟨.cons ho.symm hos, hs'⟩

end Frame

/-! ## Calls -/

/-- An entity that is passed to a branch gets a new cell, with what the caller has recorded. -/
structure Captured (caller callee : Frame) (s s' : Records) (entity : String) : Prop where
  fresh : s.outputs.next ≤ callee.outputs entity
  used : callee.outputs entity < s'.outputs.next
  copied : s'.outputs.cell (callee.outputs entity) = s.outputs.cell (caller.outputs entity)

/-- What the call of a branch sets up. -/
structure Entered (sc : Scope) (args : List String) (stores : List Symbol) (caller callee : Frame)
    (s s' : Records) : Prop where
  extends_ : s.outputs.Extends s'.outputs
  captured : ∀ e ∈ args, (sc.entities e).isSome → Captured caller callee s s' e
  closure : ∀ e, (e ∉ args ∨ sc.entities e = none) → callee.outputs e = caller.outputs e
  locals : ∀ id o, callee.locals id = some o → caller.locals id = some o

private theorem bindArgs_eq_ok {caller callee callee' : Frame} {args : List String}
    {s s' : Records} (hused : ∀ e, caller.outputs e < s.outputs.next)
    (h : caller.bindArgs sc callee args s = (.ok callee', s')) :
    s.outputs.Extends s'.outputs ∧
      (∀ e ∈ args, (sc.entities e).isSome → Captured caller callee' s s' e) ∧
      (∀ e, (e ∉ args ∨ sc.entities e = none) → callee'.outputs e = callee.outputs e) ∧
      ∀ id o, callee'.locals id = some o →
        callee.locals id = some o ∨ caller.locals id = some o := by
  induction args generalizing callee s with
  | nil =>
    cases h
    exact ⟨.refl _, fun e he => by simp at he, fun _ _ => rfl, fun _ _ ho => .inl ho⟩
  | cons arg args ih =>
    rw [Frame.bindArgs] at h
    cases harg : sc.entities arg with
    | some entity =>
      rw [harg] at h
      obtain ⟨cell, s₁, hcopy, h⟩ := Fallible.bind_eq_ok_iff.mp h
      cases hcopy
      have hext := s.outputs.extends_alloc (s.outputs.cell (caller.outputs arg))
      obtain ⟨hext', hcapt, hclos, hloc⟩ := ih (fun e => (hused e).trans (Nat.lt_succ_self _)) h
      refine ⟨hext.trans hext', fun e he hent => ?_, fun e he => ?_, hloc⟩
      · by_cases hmem : e ∈ args
        · obtain ⟨hfresh, hlt, hcell⟩ := hcapt e hmem hent
          exact ⟨(Nat.le_succ _).trans hfresh, hlt, hcell.trans (hext.cell _ (hused e))⟩
        · obtain rfl : e = arg := by simpa [hmem] using he
          have hout : callee'.outputs e = s.outputs.next :=
            (hclos e (.inl hmem)).trans (if_pos rfl)
          refine ⟨hout.ge, hout ▸ hext'.next, ?_⟩
          rw [hout, hext'.cell _ (Nat.lt_succ_self _)]
          exact Heap.cell_alloc_next _ _
      · have hne : e ≠ arg := by
          rintro rfl
          rcases he with he | he
          · exact he (by simp)
          · rw [harg] at he; cases he
        refine (hclos e (he.imp_left fun he hmem => he (by simp [hmem]))).trans (if_neg hne)
    | none =>
      rw [harg] at h
      obtain ⟨o, s₁, ho, h⟩ := Fallible.bind_eq_ok_iff.mp h
      obtain ⟨hlookup, rfl⟩ := Prod.ext_iff.mp ho
      obtain ⟨hext', hcapt, hclos, hloc⟩ := ih hused h
      refine ⟨hext', fun e he hent => ?_, fun e he => ?_, fun id o' ho' => ?_⟩
      · refine hcapt e ?_ hent
        rcases List.mem_cons.mp he with rfl | he
        · rw [harg] at hent; cases hent
        · exact he
      · exact hclos e (he.imp_left fun he hmem => he (by simp [hmem]))
      · rcases hloc id o' ho' with hbound | hcaller
        · by_cases hid : id = arg
          · subst hid
            have hlocal : caller.locals id = some o := by
              have hl : caller.lookup id = .ok o := hlookup
              rw [Frame.lookup] at hl
              cases hc : caller.locals id with
              | none => rw [hc] at hl; cases hl
              | some o'' => rw [hc] at hl; cases hl; rfl
            have hsome : some o = some o' := (if_pos rfl).symm.trans hbound
            exact .inr (hlocal.trans hsome)
          · exact .inl ((if_neg hid).symm.trans hbound)
        · exact .inr hcaller

theorem entered_of_enter {caller callee : Frame} {args : List String} {stores : List Symbol}
    {s s' : Records} (hused : ∀ e, caller.outputs e < s.outputs.next)
    (h : caller.enter sc args stores s = (.ok callee, s')) :
    Entered sc args stores caller callee s s' := by
  obtain ⟨hext, hcapt, hclos, hloc⟩ := bindArgs_eq_ok hused h
  refine ⟨hext, hcapt, hclos, fun id o ho => ?_⟩
  rcases hloc id o ho with hown | hcaller
  · simp only at hown
    split at hown
    · cases hown
    · exact hown
  · exact hcaller

/-- The entities of a callee record in cells that are in use. -/
theorem Entered.used {args : List String} {stores : List Symbol} {caller callee : Frame}
    {s s' : Records} (h : Entered sc args stores caller callee s s')
    (hused : ∀ e, caller.outputs e < s.outputs.next) (e : String) :
    callee.outputs e < s'.outputs.next := by
  by_cases he : e ∈ args ∧ (sc.entities e).isSome
  · exact (h.captured e he.1 he.2).used
  · have hclosure : e ∉ args ∨ sc.entities e = none := by
      by_cases harg : e ∈ args
      · exact .inr (Option.not_isSome_iff_eq_none.mp fun hs => he ⟨harg, hs⟩)
      · exact .inl harg
    rw [h.closure e hclosure]
    exact (hused e).trans_le h.extends_.next

/-! ## Frames -/

/-- None of the targets stands for the attribute with the given key in the given cell. -/
def Untouched (sc : Scope) (fr : Frame) (targets : List Symbol) (cell : ℕ) (key : String) : Prop :=
  ∀ entity component attributeName ref, .attr entity component attributeName ∈ targets →
    fr.outputs entity = cell → sc.attrRef entity component attributeName = .ok ref →
      key ≠ toStrAttr ref

/-- What was traced has changed nothing but what its targets stand for. -/
structure Confined (sc : Scope) (targets : List Symbol) (fr fr' : Frame) (s s' : Records) :
    Prop where
  outputs : fr'.outputs = fr.outputs
  locals : ∀ id, .name id ∉ targets → fr'.locals id = fr.locals id
  next : s.outputs.next ≤ s'.outputs.next
  get? : ∀ cell < s.outputs.next, ∀ key, Untouched sc fr targets cell key →
    (s'.outputs.cell cell).get? key = (s.outputs.cell cell).get? key

/-- It has also left the entries of the other keys in their order. -/
structure Framed (sc : Scope) (targets : List Symbol) (fr fr' : Frame) (s s' : Records) :
    Prop where
  outputs : fr'.outputs = fr.outputs
  locals : ∀ id, .name id ∉ targets → fr'.locals id = fr.locals id
  next : s.outputs.next ≤ s'.outputs.next
  restrict : ∀ cell < s.outputs.next, ∀ p : String → Bool,
    (∀ key, p key = true → Untouched sc fr targets cell key) →
      (s'.outputs.cell cell).restrict p = (s.outputs.cell cell).restrict p

namespace Framed
variable {targets targets' : List Symbol} {fr fr' fr'' : Frame} {s s' s'' : Records}

theorem of_outputs_eq (h : s'.outputs = s.outputs) : Framed sc targets fr fr s s' :=
  ⟨rfl, fun _ _ => rfl, h ▸ le_rfl, fun _ _ _ _ => by rw [h]⟩

theorem mono (h : Framed sc targets fr fr' s s') (hsub : targets ⊆ targets') :
    Framed sc targets' fr fr' s s' :=
  ⟨h.outputs, fun id hid => h.locals id fun hm => hid (hsub hm), h.next,
    fun cell hcell p hp => h.restrict cell hcell p fun key hkey e c a ref hm =>
      hp key hkey e c a ref (hsub hm)⟩

theorem trans (h : Framed sc targets fr fr' s s') (h' : Framed sc targets fr' fr'' s' s'') :
    Framed sc targets fr fr'' s s'' := by
  refine ⟨h'.outputs.trans h.outputs, fun id hid => (h'.locals id hid).trans (h.locals id hid),
    h.next.trans h'.next, fun cell hcell p hp => ?_⟩
  have hp' : ∀ key, p key = true → Untouched sc fr' targets cell key := by
    intro key hkey
    rw [Untouched, h.outputs]
    exact hp key hkey
  rw [h'.restrict cell (hcell.trans_le h.next) p hp', h.restrict cell hcell p hp]

theorem used (h : Framed sc targets fr fr' s s') (hused : ∀ e, fr.outputs e < s.outputs.next)
    (e : String) : fr'.outputs e < s'.outputs.next := by
  rw [h.outputs]
  exact (hused e).trans_le h.next

theorem confined (h : Framed sc targets fr fr' s s') : Confined sc targets fr fr' s s' := by
  refine ⟨h.outputs, h.locals, h.next, fun cell hcell key hkey => ?_⟩
  have hrestrict := h.restrict cell hcell (· = key) fun key' hk => of_decide_eq_true hk ▸ hkey
  have hget : ∀ d : OrderedDict String Mutate, (d.restrict (· = key)).get? key = d.get? key :=
    fun d => d.get?_restrict (decide_eq_true rfl)
  rw [← hget, hrestrict, hget]

end Framed

theorem framed_store {fr fr' : Frame} {target : Symbol} {o : Object} {s s' : Records}
    (h : fr.store sc o target s = (.ok fr', s')) : Framed sc [target] fr fr' s s' := by
  cases target with
  | name id =>
    obtain ⟨rfl, rfl⟩ := Frame.store_name h
    exact ⟨rfl, fun id' hid => if_neg fun he => hid (by simp [he]), le_rfl, fun _ _ _ _ => rfl⟩
  | attr entity component attributeName =>
    obtain ⟨ref, n, href, -, rfl, hs⟩ := Frame.store_attr h
    refine ⟨rfl, fun _ _ => rfl, by rw [hs]; exact le_rfl, fun cell hcell p hp => ?_⟩
    rw [hs]
    by_cases hc : cell = fr'.outputs entity
    · subst hc
      have hkey : p (toStrAttr ref) = false := by
        by_contra hkey
        exact hp _ (Bool.not_eq_false _ ▸ hkey) _ _ _ ref (by simp) rfl href rfl
      rw [Heap.cell_set_self, Recorder.restrict_setAttr hkey]
    · rw [Heap.cell_set_ne _ hc]

theorem framed_storeAll {fr fr' : Frame} {bindings : List (Symbol × Object)}
    {targets : List Symbol} (hsub : ∀ b ∈ bindings, b.1 ∈ targets) {s s' : Records}
    (h : fr.storeAll sc bindings s = (.ok fr', s')) : Framed sc targets fr fr' s s' := by
  induction bindings generalizing fr s with
  | nil => cases h; exact .of_outputs_eq rfl
  | cons b bindings ih =>
    obtain ⟨fr₁, s₁, hstore, h⟩ := Fallible.bind_eq_ok_iff.mp h
    have hb : [b.1] ⊆ targets := by simpa using hsub b (by simp)
    exact ((framed_store hstore).mono hb).trans (ih (fun b' hb' => hsub b' (by simp [hb'])) h)

/-- The parts of a call. -/
theorem call_eq_ok {caller : Frame} {activity : Block.Activity} {stores : List Symbol}
    {block : Frame → Fallible Records PythonError Frame} {os : List Object} {s s' : Records}
    (h : caller.call sc activity stores block s = (.ok os, s')) :
    ∃ callee s₁ callee' s₂, caller.enter sc activity.args stores s = (.ok callee, s₁) ∧
      block callee s₁ = (.ok callee', s₂) ∧
      List.Forall₂ (fun symbol o => callee'.object sc s₂.outputs symbol = .ok o)
        activity.returns os ∧ s'.outputs = s₂.outputs := by
  obtain ⟨callee, s₁, henter, h⟩ := Fallible.bind_eq_ok_iff.mp h
  obtain ⟨callee', s₂, hblock, h⟩ := Fallible.bind_eq_ok_iff.mp h
  obtain ⟨hos, hs⟩ := Frame.mapEach_load_eq_ok h
  exact ⟨callee, s₁, callee', s₂, henter, hblock, hos, hs⟩

/-- The outputs of a block that is run in a frame are those of the frame, and what it stores through
captured entities is not in a cell of the caller. -/
private theorem untouched_callee {caller callee : Frame} {args : List String}
    {stores : List Symbol} {s s₁ : Records} (hent : Entered sc args stores caller callee s s₁)
    {cell : ℕ} (hcell : cell < s.outputs.next) {key : String}
    (hkey : Untouched sc caller (stores.filter fun symbol => symbol.base ∉ args) cell key) :
    Untouched sc callee stores cell key := by
  intro e c a ref hmem hout href
  have hargs : e ∉ args := by
    intro harg
    have hsome : (sc.entities e).isSome := by
      rw [Scope.attrRef] at href
      cases hentity : sc.entities e with
      | none => rw [hentity] at href; cases href
      | some _ => rfl
    have hfresh := (hent.captured e harg hsome).fresh
    rw [hout] at hfresh
    exact absurd hcell hfresh.not_gt
  refine hkey e c a ref (List.mem_filter.mpr ⟨hmem, decide_eq_true hargs⟩) ?_ href
  rw [← hent.closure e (.inl hargs), hout]

/-- **The call of a branch** reaches the cells of the caller through uncaptured entities only. -/
theorem framed_call {caller : Frame} {activity : Block.Activity} {stores : List Symbol}
    {block : Frame → Fallible Records PythonError Frame}
    (hblock : ∀ fr s fr' s', (∀ e, fr.outputs e < s.outputs.next) → block fr s = (.ok fr', s') →
      Framed sc stores fr fr' s s')
    {os : List Object} {s s' : Records} (hused : ∀ e, caller.outputs e < s.outputs.next)
    (h : caller.call sc activity stores block s = (.ok os, s')) :
    Framed sc (stores.filter fun symbol => symbol.base ∉ activity.args) caller caller s s' := by
  obtain ⟨callee, s₁, callee', s₂, henter, hrun, -, hs⟩ := call_eq_ok h
  have hent := entered_of_enter hused henter
  have hframed := hblock callee s₁ callee' s₂ (hent.used hused) hrun
  refine ⟨rfl, fun _ _ => rfl, ?_, fun cell hcell p hp => ?_⟩
  · rw [hs]
    exact hent.extends_.next.trans hframed.next
  · rw [hs, hframed.restrict cell (hcell.trans_le hent.extends_.next) p
      fun key hkey => untouched_callee hent hcell (hp key hkey), hent.extends_.cell cell hcell]

/-- The switches of the objects that two branches return for the same symbols. -/
theorem switchOutputs_eq_ok {condition : Object} {symbols : List Symbol}
    {ifOutputs elseOutputs outputs : List Object} {P Q : Symbol → Object → Prop}
    (hif : List.Forall₂ P symbols ifOutputs) (helse : List.Forall₂ Q symbols elseOutputs)
    (h : switchOutputs condition ifOutputs elseOutputs = .ok outputs) :
    List.Forall₂ (fun symbol o => ∃ ifOut elseOut, P symbol ifOut ∧ Q symbol elseOut ∧
      Plotter.switch condition ifOut elseOut = .ok o) symbols outputs := by
  induction hif generalizing elseOutputs outputs with
  | nil => cases helse; cases h; exact .nil
  | cons hP _ ih =>
    cases helse with
    | cons hQ hrest =>
      obtain ⟨o, ho, h⟩ := Fallible.result_bind_eq_ok_iff.mp h
      obtain ⟨os, hos, h⟩ := Fallible.result_bind_eq_ok_iff.mp h
      cases h
      exact .cons ⟨_, _, hP, hQ, ho⟩ (ih hrest hos)

/-- The parts of a transformed if statement. -/
theorem traceIfelse_eq_ok {activity : Block.Activity} {test : Expr Symbol}
    {body orelse : List Symbol} {traceBody traceOrelse : Frame → Fallible Records PythonError Frame}
    {fr fr' : Frame} {s s' : Records}
    (h : traceIfelse py sc activity test body orelse traceBody traceOrelse fr s = (.ok fr', s')) :
    ∃ condition s₀ ifOutputs s₁ elseOutputs s₂ outputs,
      test.trace py Fallible.ofExcept (fr.load sc) s = (.ok condition, s₀) ∧
      fr.call sc activity body traceBody s₀ = (.ok ifOutputs, s₁) ∧
      fr.call sc activity orelse traceOrelse s₁ = (.ok elseOutputs, s₂) ∧
      switchOutputs condition ifOutputs elseOutputs = .ok outputs ∧
      fr.storeAll sc (activity.returns.zip outputs) s₂ = (.ok fr', s') := by
  obtain ⟨condition, s₀, htest, h⟩ := Fallible.bind_eq_ok_iff.mp h
  obtain ⟨ifOutputs, s₁, hif, h⟩ := Fallible.bind_eq_ok_iff.mp h
  obtain ⟨elseOutputs, s₂, helse, h⟩ := Fallible.bind_eq_ok_iff.mp h
  obtain ⟨outputs, s₃, hzip, h⟩ := Fallible.bind_eq_ok_iff.mp h
  obtain ⟨hswitch, rfl⟩ := Prod.ext_iff.mp hzip
  refine ⟨condition, s₀, ifOutputs, s₁, elseOutputs, s₂, outputs, htest, hif, helse, ?_, h⟩
  have hz : zipOutputs activity condition ifOutputs elseOutputs = .ok outputs := hswitch
  rw [zipOutputs] at hz
  split at hz
  · cases hz
  · exact hz

theorem framed_traceAssign {target : Symbol} {value : Expr Symbol} {fr fr' : Frame}
    {s s' : Records} (h : traceAssign py sc target value fr s = (.ok fr', s')) :
    Framed sc [target] fr fr' s s' := by
  obtain ⟨o, s₁, htrace, hstore⟩ := Fallible.bind_eq_ok_iff.mp h
  exact .trans (.of_outputs_eq (Frame.trace_eq_ok htrace).2) (framed_store hstore)

/-- **The frame of a trace**: nothing changes but what the targets of the block stand for. -/
theorem Block.framed_trace {b : Block Block.Activity} (hb : b.ReturnsStores) {fr fr' : Frame}
    {s s' : Records} (hused : ∀ e, fr.outputs e < s.outputs.next)
    (h : b.trace py sc fr s = (.ok fr', s')) : Framed sc b.stores fr fr' s s' := by
  induction b generalizing fr s fr' s' with
  | done => cases h; exact .of_outputs_eq rfl
  | assign target value rest ih =>
    obtain ⟨fr₁, s₁, hassign, h⟩ := Fallible.bind_eq_ok_iff.mp h
    have hframed := framed_traceAssign hassign
    exact (hframed.mono (by simp [Block.stores])).trans
      ((ih hb (hframed.used hused) h).mono (by simp [Block.stores]))
  | ifelse activity test body orelse rest ihbody ihorelse ihrest =>
    obtain ⟨hreturns, hbody, horelse, hrest⟩ := hb
    obtain ⟨fr₁, s₁, hifelse, h⟩ := Fallible.bind_eq_ok_iff.mp h
    obtain ⟨condition, s₂, ifOutputs, s₃, elseOutputs, s₄, outputs, htest, hif, helse, -, hstore⟩ :=
      traceIfelse_eq_ok hifelse
    have htest' : Framed sc (body.stores ++ orelse.stores) fr fr s s₂ :=
      .of_outputs_eq (Frame.trace_eq_ok htest).2
    have hused₂ := htest'.used hused
    have hcall := framed_call (fun _ _ _ _ hu ht => ihbody hbody hu ht) hused₂ hif
    have hcall' := framed_call (fun _ _ _ _ hu ht => ihorelse horelse hu ht) (hcall.used hused₂)
      helse
    have hassigned : Framed sc (body.stores ++ orelse.stores) fr fr₁ s₄ s₁ := by
      refine framed_storeAll (fun b hmem => ?_) hstore
      rw [List.mem_append, ← hreturns]
      exact (List.of_mem_zip hmem).1
    have hbranches : Framed sc (body.stores ++ orelse.stores) fr fr s₂ s₄ := by
      refine (hcall.mono fun symbol hm => ?_).trans (hcall'.mono fun symbol hm => ?_)
      · exact List.mem_append_left _ (List.mem_of_mem_filter hm)
      · exact List.mem_append_right _ (List.mem_of_mem_filter hm)
    have hframed : Framed sc (body.stores ++ orelse.stores) fr fr₁ s s₁ :=
      htest'.trans (hbranches.trans hassigned)
    refine (hframed.mono ?_).trans ((ihrest hrest (hframed.used hused) h).mono ?_)
    · simp only [Block.stores, ← List.append_assoc]
      exact List.subset_append_left _ _
    · simp only [Block.stores, ← List.append_assoc]
      exact List.subset_append_right _ _

/-! ## Keys -/

/-- Every output is recorded under the key of its attribute, whose name has no slash. -/
def Records.Keyed (s : Records) : Prop :=
  ∀ cell key o, (s.outputs.cell cell).get? key = some o →
    key = toStrAttr o.mutateAttr ∧ '/' ∉ o.mutateAttr.attributeName.toList

/-- The attribute of a symbol has a name without a slash, as all identifiers of Python. -/
def Symbol.SlashFree : Symbol → Prop
  | name _ => True
  | attr _ _ attributeName => '/' ∉ attributeName.toList

theorem Scope.attributeName_of_attrRef {entity component attributeName : String}
    {ref : AttributeRef} (h : sc.attrRef entity component attributeName = .ok ref) :
    ref.attributeName = attributeName := by
  rw [attrRef] at h
  split at h
  · cases h
  · split at h
    · cases h; rfl
    · cases h

/-- Where the outputs stay what they are, a property of the outputs is kept. -/
private theorem keeps_of_computes {α : Type} {m : Fallible Records PythonError α}
    (h : ∀ outputs, ∃ r, Fallible.Computes (fun s : Records => s.outputs = outputs) m r) :
    Fallible.Keeps Records.Keyed m := by
  intro s hs
  obtain ⟨r, hm⟩ := h s.outputs
  have heq : (m s).2.outputs = s.outputs := (hm s rfl).2
  rw [Records.Keyed, heq]
  exact hs

namespace Frame

theorem store_keyed {fr : Frame} {o : Object} {target : Symbol} (ht : target.SlashFree) :
    Fallible.Keeps Records.Keyed (fr.store sc o target) := by
  intro s hs
  rcases hrun : fr.store sc o target s with ⟨e | fr', s'⟩
  · cases target with
    | name id => cases hrun
    | attr entity component attributeName =>
      rcases Fallible.bind_eq_error_iff.mp hrun with href | ⟨ref, s₁, href, hrun⟩
      · obtain ⟨-, rfl⟩ := Prod.ext_iff.mp href
        exact hs
      · obtain ⟨-, rfl⟩ := Prod.ext_iff.mp href
        rcases Fallible.bind_eq_error_iff.mp hrun with hon | ⟨_, s₂, -, hpure⟩
        · simp only [Records.on, Recorder.write] at hon
          cases hn : o.wrap with
          | error e => rw [hn] at hon; cases hon; simpa using hs
          | ok n => rw [hn] at hon; cases hon
        · cases hpure
  · cases target with
    | name id => obtain ⟨-, rfl⟩ := store_name hrun; exact hs
    | attr entity component attributeName =>
      obtain ⟨ref, n, href, -, -, hout⟩ := store_attr hrun
      intro cell key o' ho'
      rw [hout] at ho'
      by_cases hcell : cell = fr.outputs entity
      · subst hcell
        rw [Heap.cell_set_self] at ho'
        rcases Recorder.get?_setAttr ho' with hold | ⟨rfl, rfl⟩
        · exact hs _ key o' hold
        · exact ⟨rfl, (Scope.attributeName_of_attrRef href).symm ▸ ht⟩
      · rw [Heap.cell_set_ne _ hcell] at ho'
        exact hs cell key o' ho'

theorem storeAll_keyed {fr : Frame} {bindings : List (Symbol × Object)}
    (h : ∀ b ∈ bindings, b.1.SlashFree) :
    Fallible.Keeps Records.Keyed (fr.storeAll sc bindings) := by
  induction bindings generalizing fr with
  | nil => exact Fallible.Keeps.pure _
  | cons b bindings ih =>
    exact (store_keyed (h b (by simp))).bind fun fr' => ih fun b' hb' => h b' (by simp [hb'])

theorem bindArgs_keyed {caller callee : Frame} {args : List String} :
    Fallible.Keeps Records.Keyed (caller.bindArgs sc callee args) := by
  induction args generalizing callee with
  | nil => exact Fallible.Keeps.pure _
  | cons arg args ih =>
    rw [bindArgs]
    split
    · refine Fallible.Keeps.bind (fun s hs cell key o ho => ?_) fun cell => ih
      by_cases hcell : cell = s.outputs.next
      · subst hcell
        simp only [Records.deepcopy, Heap.cell_alloc_next] at ho
        exact hs _ key o ho
      · simp only [Records.deepcopy, Heap.alloc, if_neg hcell] at ho
        exact hs _ key o ho
    · exact (Fallible.Keeps.ofExcept _).bind fun o => ih

theorem call_keyed {caller : Frame} {activity : Block.Activity} {stores : List Symbol}
    {block : Frame → Fallible Records PythonError Frame}
    (hblock : ∀ fr, Fallible.Keeps Records.Keyed (block fr)) :
    Fallible.Keeps Records.Keyed (caller.call sc activity stores block) :=
  bindArgs_keyed.bind fun callee => (hblock callee).bind fun callee' =>
    Fallible.Keeps.mapEach fun symbol _ =>
      keeps_of_computes fun outputs => ⟨_, callee'.load_computes outputs symbol⟩

theorem trace_keyed {fr : Frame} (e : Expr Symbol) :
    Fallible.Keeps Records.Keyed (e.trace py Fallible.ofExcept (fr.load sc)) :=
  keeps_of_computes fun outputs => ⟨_, Expr.trace_computes (fr.load_computes outputs) e⟩

end Frame

theorem Block.trace_keyed {b : Block Block.Activity} (hb : b.ReturnsStores)
    (hslash : ∀ symbol ∈ b.stores, symbol.SlashFree) (fr : Frame) :
    Fallible.Keeps Records.Keyed (b.trace py sc fr) := by
  induction b generalizing fr with
  | done => exact Fallible.Keeps.pure _
  | assign target value rest ih =>
    have hrest : ∀ symbol ∈ rest.stores, symbol.SlashFree :=
      fun symbol hm => hslash symbol (by simp [stores, hm])
    refine Fallible.Keeps.bind ?_ fun fr' => ih hb hrest fr'
    exact (Frame.trace_keyed value).bind fun o =>
      Frame.store_keyed (hslash target (by simp [stores]))
  | ifelse activity test body orelse rest ihbody ihorelse ihrest =>
    obtain ⟨hreturns, hbody, horelse, hrest⟩ := hb
    have hslash' : ∀ symbol, symbol ∈ body.stores ∨ symbol ∈ orelse.stores ∨ symbol ∈ rest.stores →
        symbol.SlashFree := fun symbol hm => hslash symbol (by simpa [stores] using hm)
    refine Fallible.Keeps.bind ?_ fun fr' =>
      ihrest hrest (fun s hm => hslash' s (.inr (.inr hm))) fr'
    refine (Frame.trace_keyed test).bind fun condition => ?_
    refine (Frame.call_keyed fun fr' => ihbody hbody (fun s hm => hslash' s (.inl hm)) fr').bind
      fun ifOutputs => ?_
    refine (Frame.call_keyed fun fr' =>
      ihorelse horelse (fun s hm => hslash' s (.inr (.inl hm))) fr').bind fun elseOutputs => ?_
    refine (Fallible.Keeps.ofExcept _).bind fun outputs => Frame.storeAll_keyed fun b hmem => ?_
    rcases (hreturns b.1).mp (List.of_mem_zip hmem).1 with h | h
    · exact hslash' _ (.inl h)
    · exact hslash' _ (.inr (.inl h))

end Bentobox.Sdk
