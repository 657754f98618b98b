import Bentobox.Lib.Lockstep
import Bentobox.Sdk.Python
import Bentobox.Sdk.Scoping

/-!
# Generated code in lockstep with a trace

`Block.trace` says what the transformed statements of a convert function do to the records of a
plot; its frames hold the locals and the dictionaries of the entities, those of enclosing
functions included. Python's frames are linked instead. `Sees` relates the two, and where it
holds, expressions and assignments of generated code do what those of the trace do.
-/
namespace Bentobox.Sdk.Gast

/-! ## Names -/

/-- The names that the generated code uses besides those of the convert function. -/
def reserved : List String :=
  ["zip", "deepcopy", "__if_block", "__else_block", "__if_condition", "__if_outputs",
    "__else_outputs"]

/-- A symbol that stands for what it says, and does not get in the way of generated code. -/
structure Known (sc : Scope) (symbol : Symbol) : Prop where
  knows : sc.Knows symbol
  notMem : symbol.base ∉ reserved

/-- No entity has a variable that generated code uses. -/
def Unreserved (sc : Scope) : Prop := ∀ v ∈ reserved, sc.entities v = none

/-! ## Frames -/

section Frames
variable {frames frames' : Heap PyFrame} {scopes enclosing : List ℕ} {frame : ℕ} {id id' : String}
  {v : PyValue}

theorem lookup_congr (h : ∀ i ∈ scopes, frames'.cell i = frames.cell i) (id : String) :
    lookup frames' scopes id = lookup frames scopes id := by
  induction scopes with
  | nil => rfl
  | cons i scopes ih =>
    simp only [lookup, h i (by simp), ih fun j hj => h j (by simp [hj])]

theorem lookup_bind_ne (hid : id' ≠ id) :
    lookup (bound frames frame id v) scopes id' =
      lookup frames scopes id' := by
  induction scopes with
  | nil => rfl
  | cons i scopes ih =>
    by_cases hi : i = frame
    · subst hi
      simp only [lookup, cell_bound_self, PyFrame.isLocal_bind, PyFrame.vars_bind_ne _ hid, ih]
    · simp only [lookup, cell_bound_ne _ hi, ih]

/-- The variable of a frame. -/
structure Holds (frames : Heap PyFrame) (frame : ℕ) (id : String) (v : PyValue) : Prop where
  isLocal : (frames.cell frame).isLocal id
  vars : (frames.cell frame).vars id = some v

theorem Holds.lookup (h : Holds frames frame id v) :
    lookup frames (frame :: enclosing) id = .ok v := by
  simp only [Gast.lookup, h.isLocal, h.vars, if_true]

theorem holds_bind (h : (frames.cell frame).isLocal id) :
    Holds (bound frames frame id v) frame id v := by
  constructor
  · rw [cell_bound_self]
    exact h
  · rw [cell_bound_self]
    exact PyFrame.vars_bind_self _ _ _

theorem Holds.bind_ne {w : PyValue} (h : Holds frames frame id v) (hid : id ≠ id') :
    Holds (bound frames frame id' w) frame id v := by
  constructor
  · rw [cell_bound_self]
    exact h.isLocal
  · rw [cell_bound_self]
    exact (PyFrame.vars_bind_ne _ hid _).trans h.vars

theorem Holds.extends_ (h : Holds frames frame id v) (hframe : frame < frames.next)
    (hext : frames.Extends frames') : Holds frames' frame id v := by
  constructor
  · rw [hext.cell frame hframe]
    exact h.isLocal
  · rw [hext.cell frame hframe]
    exact h.vars

/-- Nothing but the variables of a frame was changed. -/
structure Kept (frame : ℕ) (frames frames' : Heap PyFrame) : Prop where
  next : frames.next ≤ frames'.next
  others : ∀ i < frames.next, i ≠ frame → frames'.cell i = frames.cell i
  isLocal : (frames'.cell frame).isLocal = (frames.cell frame).isLocal

namespace Kept

theorem refl (frame : ℕ) (frames : Heap PyFrame) : Kept frame frames frames :=
  ⟨le_rfl, fun _ _ _ => rfl, rfl⟩

theorem trans {frames'' : Heap PyFrame} (h : Kept frame frames frames')
    (h' : Kept frame frames' frames'') : Kept frame frames frames'' :=
  ⟨h.next.trans h'.next,
    fun i hi hne => (h'.others i (hi.trans_le h.next) hne).trans (h.others i hi hne),
    h'.isLocal.trans h.isLocal⟩

theorem bind (frames : Heap PyFrame) (frame : ℕ) (id : String) (v : PyValue) :
    Kept frame frames (bound frames frame id v) := by
  refine ⟨le_rfl, fun i _ hne => cell_bound_ne _ hne _ _, ?_⟩
  rw [cell_bound_self]
  rfl

theorem of_extends (hframe : frame < frames.next) (h : frames.Extends frames') :
    Kept frame frames frames' :=
  ⟨h.next, fun i hi _ => h.cell i hi, by rw [h.cell frame hframe]⟩

/-- What a function does to its frame is not seen in the frames that were there before it. -/
theorem extends_of_alloc {f : PyFrame} (h : Kept frames.next (frames.alloc f) frames') :
    frames.Extends frames' := by
  refine ⟨(Nat.le_succ _).trans h.next, fun i hi => ?_⟩
  rw [h.others i (hi.trans (Nat.lt_succ_self _)) hi.ne, Heap.cell_alloc_of_lt hi]

end Kept

/-- In a function the names stand for what they stand for in the frame of a trace. -/
structure Sees (sc : Scope) (scopes : List ℕ) (fr : Frame) (frames : Heap PyFrame) : Prop where
  locals : ∀ id, id ∉ reserved → sc.entities id = none →
    lookup frames scopes id = .object <$> fr.lookup id
  entities : ∀ v e, sc.entities v = some e →
    lookup frames scopes v = .ok (.entity e (fr.outputs v))
  zip : lookup frames scopes "zip" = .ok .zip

namespace Sees
variable {sc : Scope} {fr : Frame}

theorem congr (h : Sees sc scopes fr frames)
    (hcell : ∀ i ∈ scopes, frames'.cell i = frames.cell i) : Sees sc scopes fr frames' :=
  ⟨fun id hid hnone => (lookup_congr hcell id).trans (h.locals id hid hnone),
    fun v e he => (lookup_congr hcell v).trans (h.entities v e he),
    (lookup_congr hcell "zip").trans h.zip⟩

theorem extends_ (h : Sees sc scopes fr frames) (hscopes : ∀ i ∈ scopes, i < frames.next)
    (hext : frames.Extends frames') : Sees sc scopes fr frames' :=
  h.congr fun i hi => hext.cell i (hscopes i hi)

/-- Generated code binds its own names. -/
theorem bind_reserved (hsc : Unreserved sc) (h : Sees sc scopes fr frames) (hid : id ∈ reserved)
    (hzip : id ≠ "zip") : Sees sc scopes fr (bound frames frame id v) := by
  refine ⟨fun id' hid' hnone => ?_, fun w e he => ?_, ?_⟩
  · have hne : id' ≠ id := by
      rintro rfl
      exact hid' hid
    rw [lookup_bind_ne hne]
    exact h.locals id' hid' hnone
  · have hne : w ≠ id := by
      rintro rfl
      rw [hsc w hid] at he
      cases he
    rw [lookup_bind_ne hne]
    exact h.entities w e he
  · rw [lookup_bind_ne hzip.symm]
    exact h.zip

/-- A local of the convert function is bound. -/
theorem bind {o : Object} (h : Sees sc (frame :: enclosing) fr frames) (hid : id ∉ reserved)
    (hnone : sc.entities id = none) (hlocal : (frames.cell frame).isLocal id) :
    Sees sc (frame :: enclosing) (fr.bind id o)
      (bound frames frame id (.object o)) := by
  refine ⟨fun id' hid' hnone' => ?_, fun w e he => ?_, ?_⟩
  · by_cases heq : id' = id
    · subst heq
      rw [(holds_bind hlocal).lookup]
      simp only [Frame.lookup, Frame.bind, if_true, Fallible.map_ok]
    · rw [lookup_bind_ne heq, h.locals id' hid' hnone']
      simp only [Frame.lookup, Frame.bind, if_neg heq]
  · have hne : w ≠ id := by
      rintro rfl
      rw [hnone] at he
      cases he
    rw [lookup_bind_ne hne]
    exact h.entities w e he
  · have hne : "zip" ≠ id := fun heq => hid (heq ▸ by decide)
    rw [lookup_bind_ne hne]
    exact h.zip

end Sees
end Frames

/-! ## Expressions -/

/-- A run of Python and a trace on the same records. -/
abbrev Lock {α β : Type} (post : α → PyState → β → Records → Prop) (m : Run α)
    (frames : Heap PyFrame) (m' : Fallible Records PythonError β) (s : Records) : Prop :=
  Fallible.Lockstep Raised.error (fun st s => st.records = s) post m ⟨s, frames⟩ m' s

/-- The same result, and no frame has changed. -/
def Same {α : Type} (frames : Heap PyFrame) (a : α) (st : PyState) (b : α) (s : Records) : Prop :=
  a = b ∧ st = ⟨s, frames⟩

section Expressions
variable {α : Type} {py : Python} {sc : Scope} {scopes : List ℕ} {fr : Frame}
  {frames : Heap PyFrame} {s : Records}

theorem raises_lock (r : Except PythonError α) :
    Lock (Same frames) (raises r) frames (Fallible.ofExcept r) s := by
  refine Fallible.Lockstep.ofExcept (fun a h => ⟨a, ?_, rfl, rfl⟩) fun e h => ⟨?_, rfl⟩
  · rw [h]; rfl
  · rw [h]; rfl

theorem onRecords_lock (m : Fallible Records PythonError α) :
    Lock (Same frames) (onRecords m) frames m s := by
  rcases hm : m s with ⟨e | a, s'⟩
  · have hrun : onRecords m ⟨s, frames⟩ = (.error (.error e), ⟨s', frames⟩) := by
      rw [onRecords, hm]; rfl
    exact Fallible.Lockstep.of_error hrun hm rfl
  · have hrun : onRecords m ⟨s, frames⟩ = (.ok a, ⟨s', frames⟩) := by
      rw [onRecords, hm]; rfl
    exact Fallible.Lockstep.of_ok hrun hm ⟨rfl, rfl⟩

theorem attrRef_of_entity {v component attributeName : String} {e : GraphEntity}
    (h : sc.entities v = some e) :
    sc.attrRef v component attributeName = e.attrRef sc component attributeName := by
  rw [Scope.attrRef, h]; rfl

theorem load_of_object {id : String} {o : Object}
    (h : lookup frames scopes id = .ok (.object o)) :
    load sc scopes (.name id) ⟨s, frames⟩ = (.ok o, ⟨s, frames⟩) :=
  Fallible.run_bind_of_ok (loadName_of_ok h)

theorem load_lock (h : Sees sc scopes fr frames) {symbol : Symbol} (hknown : Known sc symbol) :
    Lock (Same frames) (load sc scopes symbol) frames (fr.load sc symbol) s := by
  cases symbol with
  | name id =>
    have hlookup := h.locals id hknown.notMem hknown.knows
    cases hid : fr.lookup id with
    | ok o =>
      rw [hid] at hlookup
      refine Fallible.Lockstep.step (loadName_of_ok hlookup) ?_
      refine Fallible.Lockstep.of_ok rfl ?_ ⟨rfl, rfl⟩
      rw [Frame.load, hid]; rfl
    | error e =>
      rw [hid] at hlookup
      refine Fallible.Lockstep.of_error
        (Fallible.run_bind_of_error (loadName_of_error hlookup)) ?_ rfl
      rw [Frame.load, hid]; rfl
  | attr entity component attributeName =>
    obtain ⟨e, he⟩ := Option.isSome_iff_exists.mp hknown.knows
    refine Fallible.Lockstep.step (loadName_of_ok (h.entities entity e he)) ?_
    rw [Frame.load, attrRef_of_entity he]
    refine (raises_lock _).bind ?_
    rintro ref _ _ s' ⟨rfl, rfl⟩
    exact onRecords_lock _

/-- **Ternaries have become switches**: an expression of the generated code runs as the one of the
convert function is traced. -/
theorem runExpr_lock (h : Sees sc scopes fr frames) {e : Expr Symbol}
    (hknown : ∀ symbol ∈ e.leaves, Known sc symbol) :
    Lock (Same frames) (runExpr py sc scopes e.transformTernary) frames
      (e.trace py Fallible.ofExcept (fr.load sc)) s := by
  induction e generalizing s with
  | const val => exact Fallible.Lockstep.pure ⟨rfl, rfl⟩
  | leaf symbol => exact load_lock h (hknown symbol (by simp [Expr.leaves]))
  | arithmetic op x y hx hy | compare op x y hx hy | binary fn x y hx hy | random x y hx hy =>
    refine (hx fun l hl => hknown l (by simp [Expr.leaves, hl])).bind ?_
    rintro a _ _ s ⟨rfl, rfl⟩
    refine (hy fun l hl => hknown l (by simp [Expr.leaves, hl])).bind ?_
    rintro b _ _ s ⟨rfl, rfl⟩
    exact raises_lock _
  | negative x hx | positive x hx | unary fn x hx =>
    refine (hx hknown).bind ?_
    rintro a _ _ s ⟨rfl, rfl⟩
    exact raises_lock _
  | not x hx =>
    refine (hx hknown).bind ?_
    rintro a _ _ s ⟨rfl, rfl⟩
    exact Fallible.Lockstep.pure ⟨rfl, rfl⟩
  | and x y hx hy =>
    refine (hx fun l hl => hknown l (by simp [Expr.leaves, hl])).bind ?_
    rintro a _ _ s ⟨rfl, rfl⟩
    cases a.truth with
    | true => exact hy fun l hl => hknown l (by simp [Expr.leaves, hl])
    | false => exact Fallible.Lockstep.pure ⟨rfl, rfl⟩
  | or x y hx hy =>
    refine (hx fun l hl => hknown l (by simp [Expr.leaves, hl])).bind ?_
    rintro a _ _ s ⟨rfl, rfl⟩
    cases a.truth with
    | true => exact Fallible.Lockstep.pure ⟨rfl, rfl⟩
    | false => exact hy fun l hl => hknown l (by simp [Expr.leaves, hl])
  | switch c x y hc hx hy | ternary c x y hc hx hy =>
    refine (hc fun l hl => hknown l (by simp [Expr.leaves, hl])).bind ?_
    rintro d _ _ s ⟨rfl, rfl⟩
    refine (hx fun l hl => hknown l (by simp [Expr.leaves, hl])).bind ?_
    rintro a _ _ s ⟨rfl, rfl⟩
    refine (hy fun l hl => hknown l (by simp [Expr.leaves, hl])).bind ?_
    rintro b _ _ s ⟨rfl, rfl⟩
    exact raises_lock _

end Expressions

/-! ## Assignments -/

/-- After statements of a frame: the records are those of the trace, the names stand for what they
stand for in its frame, and other frames are as they were. -/
structure Ran (sc : Scope) (frame : ℕ) (enclosing : List ℕ) (frames : Heap PyFrame) (st : PyState)
    (fr : Frame) (s : Records) : Prop where
  records : st.records = s
  sees : Sees sc (frame :: enclosing) fr st.frames
  kept : Kept frame frames st.frames

section Assignments
variable {py : Python} {sc : Scope} {frame : ℕ} {enclosing : List ℕ} {fr : Frame}
  {frames : Heap PyFrame} {s : Records}

theorem store_lock (h : Sees sc (frame :: enclosing) fr frames) {target : Symbol} {o : Object}
    (hknown : Known sc target)
    (hlocal : ∀ id ∈ symbolNames target, (frames.cell frame).isLocal id) :
    Lock (fun _ => Ran sc frame enclosing frames) (store sc (frame :: enclosing) frame o target)
      frames (fr.store sc o target) s := by
  cases target with
  | name id =>
    refine Fallible.Lockstep.of_ok rfl rfl ⟨rfl, ?_, Kept.bind _ _ _ _⟩
    exact h.bind hknown.notMem hknown.knows (hlocal id (by simp [symbolNames]))
  | attr entity component attributeName =>
    obtain ⟨e, he⟩ := Option.isSome_iff_exists.mp hknown.knows
    refine Fallible.Lockstep.step (loadName_of_ok (h.entities entity e he)) ?_
    rw [Frame.store, attrRef_of_entity he]
    refine (raises_lock _).bind ?_
    rintro ref _ _ s ⟨rfl, rfl⟩
    refine (onRecords_lock _).left ?_
    rintro _ _ _ s ⟨-, rfl⟩
    exact ⟨_, _, rfl, rfl, h, Kept.refl _ _⟩

theorem unpack_lock {targets : List Symbol} {os : List Object} (hlen : os.length = targets.length)
    (h : Sees sc (frame :: enclosing) fr frames) (hknown : ∀ target ∈ targets, Known sc target)
    (hlocal : ∀ id ∈ Target.names (.tuple targets), (frames.cell frame).isLocal id) :
    Lock (fun _ => Ran sc frame enclosing frames) (unpack sc (frame :: enclosing) frame targets os)
      frames (fr.storeAll sc (targets.zip os)) s := by
  induction targets generalizing os fr frames s with
  | nil =>
    obtain rfl := List.length_eq_zero_iff.mp hlen
    exact Fallible.Lockstep.pure ⟨rfl, h, Kept.refl _ _⟩
  | cons target targets ih =>
    cases os with
    | nil => cases hlen
    | cons o os =>
      have hnames : ∀ id ∈ symbolNames target, (frames.cell frame).isLocal id :=
        fun id hid => hlocal id (by simp [Target.names, hid])
      refine (store_lock h (hknown target (by simp)) hnames).bind ?_
      rintro _ ⟨_, frames'⟩ fr' s' ⟨rfl, hsees, hkept⟩
      refine (ih (Nat.succ.inj hlen) hsees (fun t ht => hknown t (by simp [ht])) ?_).mono ?_
      · intro id hid
        rw [hkept.isLocal]
        exact hlocal id (by simp [Target.names] at hid ⊢; exact .inr hid)
      · rintro _ st fr'' s'' ⟨hrecords, hsees', hkept'⟩
        exact ⟨hrecords, hsees', hkept.trans hkept'⟩

end Assignments

/-! ## Bound names -/

section Binds
variable {b : Block Block.Activity} {id : String}

theorem bindsAll_append (l₁ l₂ : List Stmt) : bindsAll (l₁ ++ l₂) = bindsAll l₁ ++ bindsAll l₂ := by
  induction l₁ with
  | nil => rfl
  | cons stmt l₁ ih => simp only [List.cons_append, bindsAll, ih, List.append_assoc]

theorem mem_targetNames_iff {targets : List Symbol} :
    id ∈ Target.names (.tuple targets) ↔ .name id ∈ targets := by
  induction targets with
  | nil => simp [Target.names]
  | cons target targets ih =>
    rw [Target.names, List.flatMap_cons, List.mem_append, List.mem_cons, ← ih, Target.names]
    refine or_congr_left ?_
    cases target with
    | name id' => simp [symbolNames]
    | attr entity component attributeName => simp [symbolNames]

/-- The names that the code of an if statement binds. -/
theorem binds_ifelseBlock (activity : Block.Activity) (test : Term) (body orelse : List Stmt) :
    bindsAll (ifelseBlock activity test body orelse) =
      ["__if_block", "__else_block", "deepcopy", "__if_condition", "__if_outputs",
        "__else_outputs"] ++ Target.names (.tuple activity.returns) := by
  simp [ifelseBlock, wrapFuncAst, importFromAst, assignAst, bindsAll, Stmt.binds, Target.names,
    symbolNames]

/-- What generated code binds is a name of its own or stored in the block. -/
theorem mem_bindsAll_generate (hb : b.ReturnsStores) (h : id ∈ bindsAll (generate b)) :
    id ∈ reserved ∧ id ≠ "zip" ∨ .name id ∈ b.stores := by
  induction b with
  | done => simp [bindsAll] at h
  | assign target value rest ih =>
    rw [generate_assign, bindsAll, Stmt.binds, List.mem_append] at h
    rw [Block.stores, List.mem_cons]
    rcases h with h | h
    · rw [← List.mem_singleton, ← mem_targetNames_iff]
      exact .inr (.inl (by simpa [Target.names] using h))
    · exact (ih hb h).imp_right .inr
  | ifelse activity test body orelse rest hbody horelse hrest =>
    obtain ⟨hreturns, -, -, hb⟩ := hb
    rw [generate_ifelse, bindsAll, wrapBlockAst, Stmt.binds, bindsAll, List.append_nil,
      binds_ifelseBlock, List.mem_append, List.mem_append, mem_targetNames_iff, hreturns] at h
    rw [Block.stores, List.mem_append, List.mem_append]
    rcases h with (h | h) | h
    · refine .inl ?_
      simp only [List.mem_cons, List.not_mem_nil, or_false] at h
      rcases h with rfl | rfl | rfl | rfl | rfl | rfl <;> decide
    · exact .inr (h.imp_right .inl)
    · exact (hrest hb h).imp_right fun h => .inr (.inr h)

/-- The locals that are stored in the block are bound. -/
theorem mem_bindsAll_of_stores (hb : b.ReturnsStores) (h : .name id ∈ b.stores) :
    id ∈ bindsAll (generate b) := by
  induction b with
  | done => cases h
  | assign target value rest ih =>
    rw [generate_assign, bindsAll, Stmt.binds, List.mem_append]
    rcases List.mem_cons.mp h with rfl | h
    · exact .inl (by simp [Target.names, symbolNames])
    · exact .inr (ih hb h)
  | ifelse activity test body orelse rest hbody horelse hrest =>
    obtain ⟨hreturns, -, -, hb⟩ := hb
    rw [generate_ifelse, bindsAll, wrapBlockAst, Stmt.binds, bindsAll, List.append_nil,
      binds_ifelseBlock, List.mem_append, List.mem_append, mem_targetNames_iff, hreturns]
    rw [Block.stores, List.mem_append, List.mem_append] at h
    rcases h with h | h | h
    · exact .inl (.inr (.inl h))
    · exact .inl (.inr (.inr h))
    · exact .inr (hrest hb h)

end Binds
end Bentobox.Sdk.Gast
