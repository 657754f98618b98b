import Bentobox.Sdk.Binding

/-!
# Names in generated code

A transformed function raises no `NameError` exactly when it is provided for. One
direction follows the locals that the condition takes for bound into every frame, the
other reads them off the frames of a run that went through.
-/
namespace Bentobox.Sdk

/-! ## If statements -/

section Ifelse
variable {α : Type} {py : Python} {sc : Scope} {all bound defined uses : List Symbol}
  {a : α} {test : Expr Symbol} {body orelse : Block α} {fr : Frame}

theorem Frame.trace_avoids (hpy : py.RaisesNoNameError) {e : Expr Symbol}
    (hknows : ∀ symbol ∈ e.leaves, sc.Knows symbol)
    (hbound : ∀ id, .name id ∈ e.leaves → (fr.locals id).isSome) :
    Fallible.Avoids (·.isNameError) (e.trace py Fallible.ofExcept (fr.load sc)) := by
  refine Expr.trace_avoids hpy e fun symbol hmem => load_avoids (hknows symbol hmem) fun hname => ?_
  cases symbol with
  | attr => cases hname
  | name id => exact hbound id hmem

namespace Block

/-- The branches of an if statement return what either of them stores. -/
theorem mem_returns_iff {symbol : Symbol} :
    symbol ∈ (activity all defined (ifelse a test body orelse done)).returns ↔
      symbol ∈ body.stores ∨ symbol ∈ orelse.stores := by
  have h := (returnsStores_annotate all defined (ifelse a test body orelse done)).1 symbol
  simpa only [stores_annotate] using h

/-- What is captured is passed. -/
theorem args_of_captures (huse : (ifelse a test body orelse done).BoundBeforeUse uses)
    (hsub : uses ⊆ defined)
    (hknows : ∀ symbol ∈ (ifelse a test body orelse done).symbols, sc.Knows symbol) (id : String)
    (hm : .name id ∈ (ifelse a test body orelse done).captures all []) :
    id ∈ (activity all defined (ifelse a test body orelse done)).args ∧ sc.entities id = none :=
  ⟨mem_args_of_captures huse hsub hm, hknows _ (symbols_of_loads (loads_of_captures hm))⟩

/-- A transformed if statement, when its branches raise no `NameError` with the captured locals. -/
theorem traceIfelse_avoids (hpy : py.RaisesNoNameError)
    (huse : (ifelse a test body orelse done).BoundBeforeUse uses)
    (hprov : (ifelse a test body orelse done).Provided all bound) (hsub : uses ⊆ defined)
    (hknows : ∀ symbol ∈ (ifelse a test body orelse done).symbols, sc.Knows symbol)
    (hbound : ∀ id, .name id ∈ bound → (fr.locals id).isSome)
    (htest : ∀ id, .name id ∈ test.leaves → (fr.locals id).isSome)
    {body' orelse' : Block Activity} (hbody' : body'.ReturnsStores)
    (hbodyStores : body'.stores = body.stores) (horelse' : orelse'.ReturnsStores)
    (horelseStores : orelse'.stores = orelse.stores)
    (hbodyTrace : ∀ callee : Frame, (∀ id, .name id ∈
      (ifelse a test body orelse done).captures all [] → (callee.locals id).isSome) →
        Fallible.Avoids (·.isNameError) (body'.trace py sc callee))
    (horelseTrace : ∀ callee : Frame, (∀ id, .name id ∈
      (ifelse a test body orelse done).captures all [] → (callee.locals id).isSome) →
        Fallible.Avoids (·.isNameError) (orelse'.trace py sc callee)) :
    Fallible.Avoids (·.isNameError) (traceIfelse py sc
      (activity all defined (ifelse a test body orelse done)) test body'.stores orelse'.stores
      (body'.trace py sc) (orelse'.trace py sc) fr) := by
  obtain ⟨hcaptures, hbodyBound, horelseBound, -, -, -⟩ := hprov
  have hargs : ∀ arg ∈ (activity all defined (ifelse a test body orelse done)).args,
      sc.entities arg = none → (fr.locals arg).isSome := fun arg harg hnone =>
    hbound arg (hcaptures _ (captures_of_mem_args hknows harg hnone) rfl)
  have hreturns : ∀ symbol ∈ (activity all defined (ifelse a test body orelse done)).returns,
      sc.Knows symbol := by
    intro symbol hm
    refine hknows symbol (stores_subset_symbols _ ?_)
    simp only [stores, List.mem_append]
    exact (mem_returns_iff.mp hm).imp_right .inl
  refine (Frame.trace_avoids hpy (fun symbol hm => hknows symbol (by simp [symbols, hm]))
    htest).bind fun condition _ _ _ => ?_
  refine (call_avoids hbody' hargs (args_of_captures huse hsub hknows) hreturns (fun id hm => ?_)
    hbodyTrace).bind fun ifOutputs _ _ _ => ?_
  · rw [hbodyStores]
    rcases mem_returns_iff.mp hm with hm | hm
    · exact .inl hm
    · exact ((List.mem_append.mp (horelseBound _ hm rfl)).imp_left (hbound id)).symm
  refine (call_avoids horelse' hargs (args_of_captures huse hsub hknows) hreturns (fun id hm => ?_)
    horelseTrace).bind fun elseOutputs _ _ _ => ?_
  · rw [horelseStores]
    rcases mem_returns_iff.mp hm with hm | hm
    · exact ((List.mem_append.mp (hbodyBound _ hm rfl)).imp_left (hbound id)).symm
    · exact .inl hm
  refine (Fallible.Avoids.ofExcept fun e he => ?_).bind fun outputs _ _ _ =>
    Frame.storeAll_avoids fun b hm => hreturns _ (List.of_mem_zip hm).1
  rw [zipOutputs] at he
  split_ifs at he
  · cases he; exact Bool.false_ne_true
  · exact switchOutputs_isNameError he

/-- What a transformed if statement needs, when its branches need what they capture. -/
theorem provided_of_traceIfelse (huse : (ifelse a test body orelse done).BoundBeforeUse uses)
    (hsub : uses ⊆ defined)
    (hknows : ∀ symbol ∈ (ifelse a test body orelse done).symbols, sc.Knows symbol)
    (hbound : ∀ id, .name id ∈ body.stores ∨ .name id ∈ orelse.stores ∨
      .name id ∈ (ifelse a test body orelse done).captures all [] →
        (fr.locals id).isSome → .name id ∈ bound)
    {body' orelse' : Block Activity} (hbody' : body'.ReturnsStores)
    (hbodyStores : body'.stores = body.stores) (horelse' : orelse'.ReturnsStores)
    (horelseStores : orelse'.stores = orelse.stores) {fr' : Frame} {s s' : Records}
    (h : traceIfelse py sc (activity all defined (ifelse a test body orelse done)) test
      body'.stores orelse'.stores (body'.trace py sc) (orelse'.trace py sc) fr s = (.ok fr', s')) :
    NamesBound bound ((ifelse a test body orelse done).captures all []) ∧
      NamesBound (bound ++ orelse.stores) body.stores ∧
      NamesBound (bound ++ body.stores) orelse.stores ∧
      (∃ callee s₁ callee' s₂, body'.trace py sc callee s₁ = (.ok callee', s₂) ∧
        ∀ id, .name id ∈ body.stores → (callee.locals id).isSome →
          .name id ∈ (ifelse a test body orelse done).captures all []) ∧
      ∃ callee s₁ callee' s₂, orelse'.trace py sc callee s₁ = (.ok callee', s₂) ∧
        ∀ id, .name id ∈ orelse.stores → (callee.locals id).isSome →
          .name id ∈ (ifelse a test body orelse done).captures all [] := by
  obtain ⟨condition, s₀, ifOutputs, s₁, elseOutputs, s₂, outputs, -, hif, helse, -, -⟩ :=
    traceIfelse_eq_ok h
  obtain ⟨hargs, hifReturns, callee, t₁, callee', t₂, hbody, hcallee⟩ := bound_of_call hbody' hif
  obtain ⟨-, helseReturns, calleeElse, t₃, calleeElse', t₄, horelse, hcalleeElse⟩ :=
    bound_of_call horelse' helse
  rw [hbodyStores] at hifReturns hcallee
  rw [horelseStores] at helseReturns hcalleeElse
  refine ⟨fun symbol hm hname => ?_, fun symbol hm hname => ?_, fun symbol hm hname => ?_,
    ⟨callee, t₁, callee', t₂, hbody, fun id hm hb => ?_⟩,
    ⟨calleeElse, t₃, calleeElse', t₄, horelse, fun id hm hb => ?_⟩⟩
  · cases symbol with
    | attr => cases hname
    | name id =>
      obtain ⟨harg, hnone⟩ := args_of_captures huse hsub hknows id hm
      exact hbound id (.inr (.inr hm)) (hargs id harg hnone)
  · cases symbol with
    | attr => cases hname
    | name id =>
      refine List.mem_append.mpr (Or.symm ?_)
      exact (helseReturns id (mem_returns_iff.mpr (.inl hm))).imp_right (hbound id (.inl hm))
  · cases symbol with
    | attr => cases hname
    | name id =>
      refine List.mem_append.mpr (Or.symm ?_)
      exact (hifReturns id (mem_returns_iff.mpr (.inr hm))).imp_right (hbound id (.inr (.inl hm)))
  · obtain ⟨harg, hnone⟩ := hcallee id hm hb
    exact captures_of_mem_args hknows harg hnone
  · obtain ⟨harg, hnone⟩ := hcalleeElse id hm hb
    exact captures_of_mem_args hknows harg hnone

end Block
end Ifelse

/-! ## Whole functions -/

namespace Block
variable {α : Type} {py : Python} {sc : Scope} {all bound defined uses : List Symbol}

theorem symbols_ifelse_done {a : α} {test : Expr Symbol} {body orelse rest : Block α}
    {P : Symbol → Prop} (h : ∀ symbol ∈ (ifelse a test body orelse rest).symbols, P symbol) :
    ∀ symbol ∈ (ifelse a test body orelse done).symbols, P symbol := by
  intro symbol hm
  refine h symbol ?_
  simp only [symbols, List.mem_append, List.not_mem_nil, or_false] at hm ⊢
  exact hm.imp_right (Or.imp_right .inl)

/-- **Enough.** Bound in the frame are the locals that the condition takes for bound, and those
that ordinary Python has bound and that are still read. -/
theorem trace_avoids (hpy : py.RaisesNoNameError) {b : Block α}
    (huse : b.BoundBeforeUse uses) (hprov : b.Provided all bound) (hsub : uses ⊆ defined)
    (hcount : ∀ symbol, defined.count symbol + b.stores.count symbol ≤ all.count symbol)
    (hknows : ∀ symbol ∈ b.symbols, sc.Knows symbol) {fr : Frame}
    (hbound : ∀ id, .name id ∈ bound → (fr.locals id).isSome)
    (hloads : ∀ id, .name id ∈ b.loads → .name id ∈ uses → (fr.locals id).isSome) :
    Fallible.Avoids (·.isNameError) ((b.annotate all defined).trace py sc fr) := by
  induction b generalizing bound defined uses fr with
  | done => exact Fallible.Avoids.pure _
  | assign target value rest ih =>
    obtain ⟨hvalue, hrest⟩ := huse
    have hassign : Fallible.Avoids (·.isNameError) (traceAssign py sc target value fr) := by
      refine (Frame.trace_avoids hpy (fun symbol hm => hknows symbol (by simp [symbols, hm]))
        fun id hm => ?_).bind fun o _ _ _ => Frame.store_avoids (hknows target (.head _))
      exact hloads id (by simp [loads, hm]) (hvalue _ hm rfl)
    refine hassign.bind fun fr' s s' h => ?_
    obtain ⟨o, s₁, -, hstore⟩ := Fallible.bind_eq_ok_iff.mp h
    have hfr' := Frame.bound_of_store hstore
    refine ih hrest hprov (List.cons_subset_cons _ hsub) (fun symbol => ?_)
      (fun symbol hm => hknows symbol (by simp [symbols, hm])) (fun id hm => ?_) fun id hm hu => ?_
    · have := hcount symbol
      simp only [stores, List.count_cons] at this ⊢
      omega
    · exact (hfr' id).mpr ((List.mem_cons.mp hm).imp_right (hbound id))
    · refine (hfr' id).mpr ((List.mem_cons.mp hu).imp_right (hloads id ?_))
      simp [loads, hm]
  | ifelse a test body orelse rest ihbody ihorelse ihrest =>
    obtain ⟨htest, hbody, horelse, hrest⟩ := huse
    obtain ⟨hcaptures, hbodyBound, horelseBound, hbodyProv, horelseProv, hrestProv⟩ := hprov
    -- what a branch reads and ordinary Python has bound is captured, as it is defined outside
    have hread : ∀ id, .name id ∈ (ifelse a test body orelse done).loads → .name id ∈ uses →
        .name id ∈ (ifelse a test body orelse done).captures all [] := by
      intro id hm hu
      have hdef := List.count_pos_iff.mpr (hsub hu)
      have hall := hcount (.name id)
      simp only [stores, List.count_append] at hall
      refine captures_of_loads ?_ ?_ hm
      · rw [List.count_nil]
        omega
      · simp only [stores, List.count_append, List.count_nil]
        omega
    refine Fallible.Avoids.bind ?_ fun fr' s s' h => ?_
    · refine traceIfelse_avoids hpy ⟨htest, hbody, horelse, trivial⟩
        ⟨hcaptures, hbodyBound, horelseBound, hbodyProv, horelseProv, trivial⟩ hsub
        (symbols_ifelse_done hknows) hbound
        (fun id hm => hloads id (by simp [loads, hm]) (htest _ hm rfl))
        (returnsStores_annotate _ _ _) (stores_annotate _ _ _) (returnsStores_annotate _ _ _)
        (stores_annotate _ _ _) (fun callee hcallee => ?_) fun callee hcallee => ?_
      · refine ihbody hbody hbodyProv hsub (fun symbol => ?_)
          (fun symbol hm => hknows symbol (by simp [symbols, hm])) hcallee fun id hm hu =>
          hcallee id (hread id (by simp [loads, hm]) hu)
        have := hcount symbol
        simp only [stores, List.count_append] at this
        omega
      · refine ihorelse horelse horelseProv (fun _ hm => List.mem_append_right _ (hsub hm))
          (fun symbol => ?_) (fun symbol hm => hknows symbol (by simp [symbols, hm])) hcallee
          fun id hm hu => hcallee id (hread id (by simp [loads, hm]) hu)
        have := hcount symbol
        simp only [stores, List.count_append] at this ⊢
        omega
    · have hfr' := bound_of_traceIfelse h
      refine ihrest hrest hrestProv ?_ (fun symbol => ?_)
        (fun symbol hm => hknows symbol (by simp [symbols, hm])) (fun id hm => ?_)
        fun id hm hu => ?_
      · refine List.append_subset.mpr ⟨fun symbol hm => ?_, fun symbol hm => ?_⟩
        · simp [body.bindings_subset_stores (List.mem_of_mem_filter hm)]
        · simp [hsub hm]
      · have := hcount symbol
        simp only [stores, List.count_append] at this ⊢
        omega
      · rw [hfr' id, mem_returns_iff]
        exact (List.mem_append.mp hm).imp List.mem_append.mp (hbound id)
      · rw [hfr' id, mem_returns_iff]
        refine (List.mem_append.mp hu).imp (fun hm => ?_) (hloads id (by simp [loads, hm]))
        exact .inl (body.bindings_subset_stores (List.mem_of_mem_filter hm))

/-- **Necessary.** Of what the block stores or captures, the condition takes for bound what is bound
in the frame. -/
theorem provided_of_trace {b : Block α} (own : List Symbol) (huse : b.BoundBeforeUse uses)
    (hsub : uses ⊆ defined) (hknows : ∀ symbol ∈ b.symbols, sc.Knows symbol) {fr fr' : Frame}
    {s s' : Records}
    (hbound : ∀ id, .name id ∈ b.stores ∨ .name id ∈ b.captures all own →
      (fr.locals id).isSome → .name id ∈ bound)
    (h : (b.annotate all defined).trace py sc fr s = (.ok fr', s')) : b.Provided all bound := by
  induction b generalizing own bound defined uses fr fr' s s' with
  | done => trivial
  | assign target value rest ih =>
    obtain ⟨fr₁, s₁, hassign, h⟩ := Fallible.bind_eq_ok_iff.mp h
    obtain ⟨o, s₂, -, hstore⟩ := Fallible.bind_eq_ok_iff.mp hassign
    refine ih own huse.2 (List.cons_subset_cons _ hsub)
      (fun symbol hm => hknows symbol (by simp [symbols, hm])) (fun id hm hb => ?_) h
    rcases (Frame.bound_of_store hstore id).mp hb with rfl | hb
    · exact .head _
    · refine List.mem_cons_of_mem _ (hbound id ?_ hb)
      exact hm.imp (List.mem_cons_of_mem _) (List.mem_append_right _)
  | ifelse a test body orelse rest ihbody ihorelse ihrest =>
    obtain ⟨htest, hbody, horelse, hrest⟩ := huse
    obtain ⟨fr₁, s₁, hifelse, h⟩ := Fallible.bind_eq_ok_iff.mp h
    have huse' : (ifelse a test body orelse done).BoundBeforeUse uses :=
      ⟨htest, hbody, horelse, trivial⟩
    have hcaptures : ∀ symbol ∈ (ifelse a test body orelse done).captures all [],
        symbol ∈ (ifelse a test body orelse rest).captures all own := by
      intro symbol hm
      simp only [captures, List.append_nil] at hm
      exact List.mem_append_left _ hm
    obtain ⟨hcaptured, hbodyBound, horelseBound, ⟨callee, t₁, callee', t₂, hrunBody, hcallee⟩,
        calleeElse, t₃, calleeElse', t₄, hrunElse, hcalleeElse⟩ :=
      provided_of_traceIfelse huse' hsub (symbols_ifelse_done hknows) (fun id hm => hbound id (by
          rcases hm with hm | hm | hm
          · exact .inl (by simp [stores, hm])
          · exact .inl (by simp [stores, hm])
          · exact .inr (hcaptures _ hm)))
        (returnsStores_annotate _ _ _) (stores_annotate _ _ _) (returnsStores_annotate _ _ _)
        (stores_annotate _ _ _) hifelse
    refine ⟨hcaptured, hbodyBound, horelseBound, ?_, ?_, ?_⟩
    · refine ihbody (body.ownStores ++ orelse.ownStores) hbody hsub
        (fun symbol hm => hknows symbol (by simp [symbols, hm])) (fun id hm hb => ?_) hrunBody
      rcases hm with hm | hm
      · exact hcallee id hm hb
      · simp [captures, hm]
    · refine ihorelse (body.ownStores ++ orelse.ownStores) horelse
        (fun _ hm => List.mem_append_right _ (hsub hm))
        (fun symbol hm => hknows symbol (by simp [symbols, hm])) (fun id hm hb => ?_) hrunElse
      rcases hm with hm | hm
      · exact hcalleeElse id hm hb
      · simp [captures, hm]
    · refine ihrest own hrest ?_ (fun symbol hm => hknows symbol (by simp [symbols, hm]))
        (fun id hm hb => ?_) h
      · refine List.append_subset.mpr ⟨fun symbol hm => ?_, fun symbol hm => ?_⟩
        · simp [body.bindings_subset_stores (List.mem_of_mem_filter hm)]
        · simp [hsub hm]
      · rw [bound_of_traceIfelse hifelse, mem_returns_iff] at hb
        refine List.mem_append.mpr (hb.imp List.mem_append.mpr (hbound id ?_))
        exact hm.imp (fun hm => by simp [stores, hm]) fun hm => List.mem_append_right _ hm

end Block

namespace ConvertFn
variable {fn : ConvertFn} {py : Python}

/-- In ordinary Python every variable of the function is bound before each of its uses. -/
structure BoundBeforeUse (fn : ConvertFn) : Prop where
  names : fn.body.BoundBeforeUse []
  entities : ∀ symbol ∈ fn.body.symbols, ¬ symbol.isName →
    (fn.scope.entities symbol.base).isSome

/-- The condition for the whole function. -/
def Provided (fn : ConvertFn) : Prop := fn.body.Provided fn.body.stores []

theorem BoundBeforeUse.knows (h : fn.BoundBeforeUse) :
    ∀ symbol ∈ fn.body.symbols, fn.scope.Knows symbol
  | .name id, hm => fn.locals id hm
  | .attr _ _ _, hm => h.entities _ hm Bool.false_ne_true

theorem compile_ne_nameError (hpy : py.RaisesNoNameError) (h : fn.BoundBeforeUse)
    (hprov : fn.Provided) (id : String) : fn.compile py ≠ .error (.nameError id) := by
  intro hcompile
  have havoids : Fallible.Avoids (·.isNameError)
      (fn.body.analyzeActivity.trace py fn.scope frame) :=
    Block.trace_avoids hpy h.names hprov (List.nil_subset _) (fun symbol => by simp) h.knows
      (fun id hm => by simp at hm) fun id _ hm => by simp at hm
  rw [compile] at hcompile
  split at hcompile
  · cases hcompile
  next e s' hrun =>
    cases hcompile
    exact havoids _ _ _ hrun rfl

theorem provided_of_compile (h : fn.BoundBeforeUse) {r : Recorder}
    (hcompile : fn.compile py = .ok r) : fn.Provided := by
  rw [compile] at hcompile
  split at hcompile
  next fr' s' hrun =>
    exact Block.provided_of_trace [] h.names (List.nil_subset _) h.knows
      (fun id _ hb => by simp [frame] at hb) hrun
  · cases hcompile

/-- **Scoping.** A function that is provided for is plotted without a `NameError`, and where no
other exception ends the plotting, no other function is. -/
theorem compile_names_iff_provided (hpy : py.RaisesNoNameError) (h : fn.BoundBeforeUse) :
    (fn.Provided → ∀ id, fn.compile py ≠ .error (.nameError id)) ∧
      ((∀ e, fn.compile py = .error e → e.isNameError) →
        ((∀ id, fn.compile py ≠ .error (.nameError id)) ↔ fn.Provided)) := by
  refine ⟨compile_ne_nameError hpy h, fun hother => ⟨fun hnames => ?_, compile_ne_nameError hpy h⟩⟩
  cases hcompile : fn.compile py with
  | ok r => exact provided_of_compile h hcompile
  | error e =>
    have hname := hother e hcompile
    cases e with
    | nameError id => exact absurd hcompile (hnames id)
    | typeError | valueError | zeroDivisionError | overflowError | indexError | keyError =>
      cases hname

/-! ### Braking -/

/-- `speed = 5`, the given if statement on `car["Action"].brake`, and
`car["Velocity"].x = speed`. -/
def speeding (body orelse : Block Unit) : Block Unit :=
  .assign (.name "speed") (.const (.int 5))
    (.ifelse () (.leaf (.attr "car" "Action" "brake")) body orelse
      (.assign (.attr "car" "Velocity" "x") (.leaf (.name "speed")) .done))

/-- `if car["Action"].brake: speed = 0` -/
def braking : ConvertFn where
  scope := car
  body := speeding (.assign (.name "speed") (.const (.int 0)) .done) .done
  slashFree := by simp [speeding, Block.symbols, Expr.leaves, Symbol.SlashFree]
  locals := by simp [speeding, Block.symbols, Expr.leaves, car]

/-- `slow = 1; speed = slow if car["Action"].hard else 2`, and
`slow = 2; speed = slow` in the else branch. -/
def brakingSlowly : ConvertFn where
  scope := car
  body := speeding
    (.assign (.name "slow") (.const (.int 1)) (.assign (.name "speed")
      (.ternary (.leaf (.attr "car" "Action" "hard")) (.leaf (.name "slow")) (.const (.int 2)))
      .done))
    (.assign (.name "slow") (.const (.int 2))
      (.assign (.name "speed") (.leaf (.name "slow")) .done))
  slashFree := by simp [speeding, Block.symbols, Expr.leaves, Symbol.SlashFree]
  locals := by simp [speeding, Block.symbols, Expr.leaves, car]

theorem default_raisesNoNameError : (default : Python).RaisesNoNameError where
  arithmetic := by rintro op x y e ⟨⟩; exact Bool.false_ne_true
  negative := by rintro x e ⟨⟩; exact Bool.false_ne_true
  positive := by rintro x e ⟨⟩; exact Bool.false_ne_true
  compare := by rintro op x y e ⟨⟩; exact Bool.false_ne_true
  compareMessage := by rintro op x y e ⟨⟩; exact Bool.false_ne_true

/-- A local that one branch assigns was assigned before, outside of all branches. -/
theorem compile_names_braking : braking.Provided := by
  have hbound : braking.BoundBeforeUse := ⟨by decide, by decide⟩
  refine ((compile_names_iff_provided default_raisesNoNameError hbound).2 fun e he => ?_).mp
    fun id hid => ?_
  · cases he
  · cases hid

/-- The ternary reads `slow` in another block than the one that assigns it, so `slow` is passed to
the branches, which is before it is assigned. -/
theorem brakingSlowly_nameError : ¬ ∀ (py : Python) (fn : ConvertFn), py.RaisesNoNameError →
    fn.BoundBeforeUse → fn.body.BoundBeforeBranch [] →
    ∀ id, fn.compile py ≠ .error (.nameError id) := by
  intro h
  have hbound : brakingSlowly.BoundBeforeUse := ⟨by decide, by decide⟩
  exact h default brakingSlowly default_raisesNoNameError hbound (by decide) "slow" rfl

/-- `if car["Action"].hard: speed = 0` in the branch -/
def brakingHard : ConvertFn where
  scope := car
  body := speeding (.ifelse () (.leaf (.attr "car" "Action" "hard"))
    (.assign (.name "speed") (.const (.int 0)) .done) .done .done) .done
  slashFree := by simp [speeding, Block.symbols, Expr.leaves, Symbol.SlashFree]
  locals := by simp [speeding, Block.symbols, Expr.leaves, car]

-- the else branch of the inner if statement has no `speed` to return
example : brakingHard.compile default = .error (.nameError "speed") := rfl

end ConvertFn
end Bentobox.Sdk
