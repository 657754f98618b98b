import Bentobox.Engine.Integers
import Bentobox.Sdk.RoundTrip

/-!
# Integers in attributes

What becomes of an integer that is stored in an attribute of one of the integer types.
`setValue` casts it to the declared type without a check, so an integer of more than 32 bits
loses its upper half in an attribute of 32 bits and no error is reported.
-/
namespace Bentobox

open AttributeStore SimulationStore

/-- A cast to 32 bits keeps the integers that fit. -/
theorem toInt_setWidth_iff (x : BitVec 64) :
    (x.setWidth 32).toInt = x.toInt ↔ InRange 32 x.toInt := by
  constructor
  · intro h
    exact h ▸ inRange_toInt (x.setWidth 32)
  · intro h
    have hx : BitVec.ofInt 32 x.toInt = x.setWidth 32 := by
      apply BitVec.eq_of_toInt_eq
      rw [BitVec.toInt_ofInt, BitVec.toInt_setWidth, BitVec.toInt_eq_toNat_bmod,
        Int.bmod_bmod_of_dvd (by decide)]
    rw [← hx, toInt_ofInt_of_inRange (by decide) h]

namespace UserComponent
variable (F : FloatOps)

/-- An attribute of an integer type stores an integer, the given one if it fits. -/
theorem storedValue_integer {compDef : ComponentDef} {a : String} {t : TypePrimitive}
    (hschema : compDef.schema.get? a = some (.primitive t)) (ht : t = .int32 ∨ t = .int64)
    (n : Integer) : ∃ m : Integer,
      storedValue F compDef a (setVal (.number n.number)) = .ok (setVal (.number m.number)) ∧
        (m.toInt = n.toInt ↔ t = .int64 ∨ InRange 32 n.toInt) := by
  have hcheck : checkValue compDef a (setVal (.number n.number)) = .ok (.primitive t) :=
    checkValue_eq_ok_iff.mpr ⟨hschema, _, rfl⟩
  simp only [storedValue, hcheck, Fallible.ok_bind]
  rcases ht with rfl | rfl
  · cases n with
    | int32 v => exact ⟨.int32 v, rfl, by simp [Integer.toInt, inRange_toInt]⟩
    | int64 v =>
      refine ⟨.int32 (v.setWidth 32), rfl, ?_⟩
      simpa [Integer.toInt] using toInt_setWidth_iff v
  · cases n with
    | int32 v =>
      exact ⟨.int64 (v.signExtend 64), rfl, by
        simp [Integer.toInt, BitVec.toInt_signExtend_of_le]⟩
    | int64 v => exact ⟨.int64 v, rfl, by simp⟩

/-- A value under the tag of another type is refused. -/
theorem storedValue_mistagged {compDef : ComponentDef} {a : String} {t : DataType}
    (hschema : compDef.schema.get? a = some t) {w : Value} {v : ℤ} (hw : w.Holds v)
    (htag : valHasCorrectDataType w ≠ .ok true) :
    ∃ x, storedValue F compDef a w = .error (.exception x) := by
  obtain ⟨n, hn, -⟩ := hw
  obtain ⟨s, hs, -⟩ := Option.bind_eq_some_iff.mp hn
  have hchecked : ∃ x, checkValue compDef a w = .error (.exception x) := by
    rw [checkValue, hschema]
    cases hd : w.dataType with
    | none => exact ⟨_, rfl⟩
    | some d =>
      cases hv : valHasCorrectDataType w with
      | error e =>
        simp only [valHasCorrectDataType, hd, runFnWithValType, runFnWithVal, Value.getVal?, hs,
          Scalar.any?, Option.bind_some] at hv
        split_ifs at hv <;> cases hv <;> exact ⟨_, rfl⟩
      | ok b =>
        cases b with
        | true => exact absurd hv htag
        | false =>
          obtain ⟨name, hname⟩ : ∃ name, valStoredTypeName w = .ok name := by
            obtain ⟨d, k⟩ := w
            cases k with
            | notSet | array => cases hs
            | primitive p => cases p <;> first | cases hs; done | exact ⟨_, rfl⟩
          simp only [hname]
          exact ⟨_, rfl⟩
  obtain ⟨x, hx⟩ := hchecked
  exact ⟨x, by rw [storedValue, hx, Fallible.error_bind]⟩

end UserComponent

/-- An integer output is either refused, which leaves the attribute as it was, or stored. -/
theorem mutateOp_integer {F : FloatOps} {s s₁ : Env Stores} (hs : s.store.Wf) {ref : AttributeRef}
    {c : UserComponent} (hc : s.store.component ref.component ref.entityId = .ok c)
    {t : TypePrimitive}
    (hschema : c.compDef.schema.get? ref.attributeName = some (.primitive t))
    (ht : t = .int32 ∨ t = .int64) {n : Node} {w : Value}
    (hn : evaluateNode F n s = (.ok w, s₁)) {v : ℤ} (hw : w.Holds v) :
    (valHasCorrectDataType w ≠ .ok true ∧
        (∃ x, (mutateOp F ⟨ref, n⟩ s).1 = .error (.exception x)) ∧
        reading (mutateOp F ⟨ref, n⟩ s).2.store ref = reading s.store ref) ∨
      (valHasCorrectDataType w = .ok true ∧ (mutateOp F ⟨ref, n⟩ s).1 = .ok () ∧
        ∃ m : Integer, reading (mutateOp F ⟨ref, n⟩ s).2.store ref =
            .ok (setVal (.number m.number)) ∧ (m.toInt = v ↔ t = .int64 ∨ InRange 32 v)) := by
  have hmap := (evaluateNode_refines F Stores.stores_refine_map n).eq hs
  have hkeep : s₁.store.view = s.store.view := by
    have := AttributeMap.evaluateNode_store F n (Env.map Stores.view s)
    rwa [hmap, hn] at this
  obtain ⟨hres, hview, hwf⟩ := mutateOp_refines F Stores.stores_refine_map ⟨ref, n⟩ s hs
  rw [reading_eq_get hs, reading_eq_get hwf]
  have hlayout : s.store.view.layout ref.component ref.entityId = .ok c.compDef := by
    simp only [Stores.view, hc, Fallible.map_ok]
  have hput : mutateOp F ⟨ref, n⟩ (s.map Stores.view) =
      ((AttributeMap.put F ref w s.store.view).1,
        ⟨(AttributeMap.put F ref w s.store.view).2, s₁.gen⟩) := by
    rw [hn] at hmap
    rw [mutateOp, Fallible.run_bind_of_ok hmap, ← hkeep]
    rfl
  have hconv : s.store.view.converted F ref w =
      UserComponent.storedValue F c.compDef ref.attributeName w := by
    rw [AttributeMap.converted, hlayout, Fallible.ok_bind]
  rw [hput, AttributeMap.put, hconv] at hres hview
  by_cases htag : valHasCorrectDataType w = .ok true
  · obtain ⟨y, rfl⟩ := valHasCorrectDataType_eq_true_iff.mp htag
    obtain ⟨k, hk, rfl⟩ := hw
    obtain rfl : y = .number k.number := by
      rw [Value.getVal?_setVal] at hk
      rcases y with (v | v | v | v) | y | y <;> cases hk <;> rfl
    obtain ⟨m, hm, hiff⟩ := UserComponent.storedValue_integer F hschema ht k
    rw [hm] at hres hview
    refine .inr ⟨htag, hres, m, ?_, hiff⟩
    have hstore : (mutateOp F ⟨ref, n⟩ s).2.store.view = _ := congrArg Env.store hview
    rw [hstore]
    simp only [AttributeMap.get, AttributeMap.layout_set, hlayout, AttributeMap.value_set_self,
      Fallible.ok_bind, orNotSet]
  · obtain ⟨x, hx⟩ := UserComponent.storedValue_mistagged F hschema hw htag
    rw [hx] at hres hview
    have hstore : (mutateOp F ⟨ref, n⟩ s).2.store.view = s.store.view := congrArg Env.store hview
    exact .inl ⟨htag, ⟨x, hres⟩, by rw [hstore]⟩

namespace Sdk

/-- What `GetAttribute` replies. -/
def attributeAnswer (F : FloatOps) (e : Engine Stores) (name : String) (ref : AttributeRef) :
    Option Response :=
  (Engine.step F e (.getAttribute name ref)).map Prod.fst

/-- From the engine `e` to `e₁` the integer `v` was either refused with an error, and the
attribute answers as before, or it was stored, and the attribute answers with that integer. -/
def KeptOrRefused (F : FloatOps) (e e₁ : Engine Stores) (error : Prop) (name : String)
    (ref : AttributeRef) (v : ℤ) : Prop :=
  (error ∧ attributeAnswer F e₁ name ref = attributeAnswer F e name ref) ∨
    ∃ w, attributeAnswer F e₁ name ref = some (.value w) ∧ w.Holds v

variable {F : FloatOps} {e : Engine Stores} {name : String} {sim : Simulation Stores}
  {ref : AttributeRef} {c : UserComponent} {t : TypePrimitive}

theorem attributeAnswer_of_get? (hs : e.sims.get? name = some sim) :
    attributeAnswer F e name ref = Engine.attributeReply (some (reading sim.store ref)) := by
  rw [attributeAnswer, Engine.answers_getAttribute, Engine.found, hs, Option.map_some]

theorem get?_register (e : Engine Stores) (name : String) (sim : Simulation Stores)
    (s : Env Stores) :
    (e.register name sim s).sims.get? name = some { sim with store := s.store } := by
  rw [Engine.register, OrderedDict.get?_insert_self]

/-- An output that evaluates to an integer, on an engine whose simulation has come to `s`. -/
theorem keptOrRefused_output (e : Engine Stores) (name : String) (sim : Simulation Stores)
    {s s₁ : Env Stores} (hwf : s.store.Wf)
    (hc : s.store.component ref.component ref.entityId = .ok c)
    (hschema : c.compDef.schema.get? ref.attributeName = some (.primitive t))
    (ht : t = .int32 ∨ t = .int64) {n : Node} {w : Value}
    (hn : evaluateNode F n s = (.ok w, s₁)) {v : ℤ} (hw : w.Holds v) :
    (mutateOp F ⟨ref, n⟩ s).1 ≠ .error .undefined ∧
      (KeptOrRefused F (e.register name sim s) (e.register name sim (mutateOp F ⟨ref, n⟩ s).2)
          (∃ x, (mutateOp F ⟨ref, n⟩ s).1 = .error x) name ref v ↔
        t = .int64 ∨ InRange 32 v ∨ valHasCorrectDataType w ≠ .ok true) := by
  simp only [KeptOrRefused, attributeAnswer_of_get? (get?_register e name sim _)]
  rcases mutateOp_integer hwf hc hschema ht hn hw with
    ⟨htag, ⟨x, hx⟩, hread⟩ | ⟨htag, hok, m, hread, hm⟩
  · refine ⟨by simp [hx], iff_of_true (.inl ⟨⟨_, hx⟩, by rw [hread]⟩) (.inr (.inr htag))⟩
  · refine ⟨by simp [hok], ?_⟩
    rw [hread, hok]
    have hholds : (∃ w, Engine.attributeReply (some (.ok (setVal (.number m.number)))) =
        some (.value w) ∧ w.Holds v) ↔ m.toInt = v := by
      constructor
      · rintro ⟨w, ⟨⟩, hw⟩
        exact (holds_setVal m).unique hw
      · rintro rfl
        exact ⟨_, rfl, holds_setVal m⟩
    simp [hholds, hm, htag]

/-- The SDK wraps an integer as a value that holds it, under the tag of its width. -/
theorem holds_of_wrap {x : PyScalar} {w : Value} {v : ℤ} (hx : x.item = .int v)
    (hw : x.wrap = .ok w) : w.Holds v ∧ valHasCorrectDataType w = .ok true := by
  obtain ⟨s, rfl, hunwrap⟩ := PyScalar.wrap_eq_ok default hw
  refine ⟨?_, valHasCorrectDataType_eq_true_iff.mpr ⟨s, rfl⟩⟩
  rw [hx] at hunwrap
  rcases s with (b | b | b | b) | s | b
  · cases hunwrap; exact holds_setVal (.int32 b)
  · cases hunwrap; exact holds_setVal (.int64 b)
  all_goals cases hunwrap

/-- **Storing an integer**, by `SetAttribute` or by an output that evaluates to it, either is
refused and changes nothing or keeps the number, exactly when the attribute has 64 bits or the
number fits into 32. A value under a wrong tag is always refused. -/
theorem integer_store_iff (he : e.Reachable F) (hs : e.sims.get? name = some sim)
    (hc : sim.store.component ref.component ref.entityId = .ok c)
    (hschema : c.compDef.schema.get? ref.attributeName = some (.primitive t))
    (ht : t = .int32 ∨ t = .int64) (v : ℤ) :
    (∀ (x : PyScalar) (w : Value), x.item = .int v → x.wrap = .ok w →
      ∃ o e₁, Engine.step F e (.setAttribute name ref w) = some (o, e₁) ∧
        (KeptOrRefused F e e₁ (o.isError = true) name ref v ↔ t = .int64 ∨ InRange 32 v)) ∧
    ∀ (s : Env Stores) (c : UserComponent) (n : Node) (w : Value) (s₁ : Env Stores), s.store.Wf →
      s.store.component ref.component ref.entityId = .ok c →
      c.compDef.schema.get? ref.attributeName = some (.primitive t) →
      evaluateNode F n s = (.ok w, s₁) → w.Holds v →
      (mutateOp F ⟨ref, n⟩ s).1 ≠ .error .undefined ∧
        (KeptOrRefused F (e.register name sim s) (e.register name sim (mutateOp F ⟨ref, n⟩ s).2)
            (∃ x, (mutateOp F ⟨ref, n⟩ s).1 = .error x) name ref v ↔
          t = .int64 ∨ InRange 32 v ∨ valHasCorrectDataType w ≠ .ok true) := by
  refine ⟨fun x w hx hw => ?_, fun s c n w s₁ hwf hc hschema hn hw =>
    keptOrRefused_output e name sim hwf hc hschema ht hn hw⟩
  obtain ⟨hholds, htag⟩ := holds_of_wrap hx hw
  obtain ⟨hdef, hiff⟩ := keptOrRefused_output e name sim (s := ⟨sim.store, e.gen⟩)
    (he.wf name sim hs) hc hschema ht (n := .const w) rfl hholds
  have hanswer : attributeAnswer F (e.register name sim ⟨sim.store, e.gen⟩) name ref =
      attributeAnswer F e name ref := by
    rw [attributeAnswer_of_get? (get?_register e name sim _), attributeAnswer_of_get? hs]
  rw [KeptOrRefused, hanswer] at hiff
  simp only [htag, ne_eq, not_true_eq_false, or_false] at hiff
  simp only [Engine.step, Engine.setAttribute, hs, Engine.runOn, Engine.answer]
  rcases hr : (mutateOp F ⟨ref, .const w⟩ (⟨sim.store, e.gen⟩ : Env Stores)).1 with (x | _) | _
  · refine ⟨_, _, rfl, Iff.trans ?_ hiff⟩
    rw [hr]
    simp [KeptOrRefused, Response.isError]
  · exact absurd hr hdef
  · refine ⟨_, _, rfl, Iff.trans ?_ hiff⟩
    rw [hr]
    simp [KeptOrRefused, Response.isError]

/-- Minus five in an attribute of 32 bits, by `SetAttribute`. -/
theorem integer_store_iff_negFive : ∃ o e₁, Engine.step default
      (Engine.afterApply (Engine.twoCells false))
      (.setAttribute "s" ⟨1, "C", "a"⟩ (setVal (.number (.int32 (-5))))) = some (o, e₁) ∧
    KeptOrRefused default (Engine.afterApply (Engine.twoCells false)) e₁ (o.isError = true) "s"
      ⟨1, "C", "a"⟩ (-5) := by
  have hreach : (Engine.afterApply (Engine.twoCells false)).Reachable default :=
    ⟨0, [.applySimulation (Engine.twoCells false)], _, rfl⟩
  have hsim : (Engine.afterApply (Engine.twoCells false)).sims.get? "s" =
      some ⟨Engine.twoCells false, _, false⟩ := rfl
  obtain ⟨o, e₁, hstep, hiff⟩ := (@integer_store_iff default _ "s" _ ⟨1, "C", "a"⟩ _ .int32 hreach
    hsim rfl rfl (.inl rfl) (-5)).1 (.native (.int (-5))) _ rfl rfl
  exact ⟨o, e₁, hstep, hiff.mpr (.inr (by decide))⟩

/-- The attribute of 32 bits accepts the number `2 ^ 31` and answers with another one. -/
theorem integer_store_fails : ¬ ∀ (F : FloatOps) (e : Engine Stores) (name : String)
    (sim : Simulation Stores) (ref : AttributeRef) (c : UserComponent) (t : TypePrimitive) (v : ℤ)
    (x : PyScalar) (w : Value) (o : Response) (e₁ : Engine Stores), e.Reachable F →
    e.sims.get? name = some sim → sim.store.component ref.component ref.entityId = .ok c →
    c.compDef.schema.get? ref.attributeName = some (.primitive t) → t = .int32 ∨ t = .int64 →
    x.item = .int v → x.wrap = .ok w →
    Engine.step F e (.setAttribute name ref w) = some (o, e₁) →
    KeptOrRefused F e e₁ (o.isError = true) name ref v := by
  intro h
  have hreach : (Engine.afterApply (Engine.twoCells false)).Reachable default :=
    ⟨0, [.applySimulation (Engine.twoCells false)], _, rfl⟩
  have hsim : (Engine.afterApply (Engine.twoCells false)).sims.get? "s" =
      some ⟨Engine.twoCells false, _, false⟩ := rfl
  have hkept := h default _ "s" _ ⟨1, "C", "a"⟩ _ .int32 (2 ^ 31) (.native (.int (2 ^ 31)))
    (setVal (.number (.int64 (2 ^ 31)))) _ _ hreach hsim rfl rfl (.inl rfl) rfl rfl rfl
  rcases hkept with ⟨herror, -⟩ | ⟨w, hanswer, n, hn, hv⟩
  · cases herror
  · cases hanswer
    cases hn
    exact absurd hv (by decide)

end Sdk
end Bentobox
