import Bentobox.Sdk.NameErrors

/-!
# Branches that interfere

Both branches of an if statement are traced. What the if branch stores through a variable that is
not copied stays behind in the dictionary that the else branch then starts from.

A taint says where the records are wrong at a point of the path that the store selects. It is
kept for every variable of an entity, as a copied variable has a dictionary of its own. Away from
the taint the records agree with the direct execution (`Related`), and a function whose attributes
are not tainted in the end yields what its direct execution gives
(`ConvertFn.compiled_of_sound`).
-/
namespace Bentobox.Sdk

/-! ## Spots -/

/-- What a function asks for: a local, or an attribute through a variable of its entity. -/
inductive Spot
  | name (id : String)
  | attr (entity : String) (attrRef : AttributeRef)

namespace Spot

/-- Which of the two variables is used is nothing to the direct execution. -/
def place : Spot → Place
  | name id => .name id
  | attr _ attrRef => .attr attrRef

/-- The spots at which a store to the target shows: the variables that record in its dictionary. -/
def sharing (outputs : String → ℕ) : Spot → Set Spot
  | name id => {name id}
  | attr entity attrRef => { spot | ∃ e, spot = attr e attrRef ∧ outputs e = outputs entity }

/-- A store leaves its spots tainted, unless it is right. -/
def overwrite (outputs : String → ℕ) (target : Spot) (right : Prop) (tainted : Set Spot) :
    Set Spot :=
  tainted \ target.sharing outputs ∪ { spot ∈ target.sharing outputs | ¬ right }

end Spot

def Scope.spot (sc : Scope) : Symbol → Except PythonError Spot
  | .name id => .ok (.name id)
  | .attr entity component attributeName =>
    Spot.attr entity <$> sc.attrRef entity component attributeName

/-- Stores to several symbols, some of which are right. -/
def Scope.overwriteAll (sc : Scope) (outputs : String → ℕ) (right : Symbol → Prop) :
    List Symbol → Set Spot → Set Spot
  | [], tainted => tainted
  | symbol :: symbols, tainted => sc.overwriteAll outputs right symbols
      { spot | ∃ target, sc.spot symbol = .ok target ∧
        spot ∈ target.overwrite outputs (right symbol) tainted }

/-- The spots whose places have changed. -/
def stale (m m' : Memory) : Set Spot := { spot | m' spot.place ≠ m spot.place }

/-- The attributes that have another definition than before. -/
def Frame.changed (fr : Frame) (s s' : Records) : Set Spot :=
  { spot | ∃ e ref, spot = .attr e ref ∧
    Recorder.definition (s'.outputs.cell (fr.outputs e)) ref ≠
      Recorder.definition (s.outputs.cell (fr.outputs e)) ref }

/-! ## The condition -/

/-- The recorder takes the assignment of the object for a self assignment. -/
def Object.IsRead (o : Object) : Spot → Prop
  | .name _ => False
  | .attr _ attrRef => o.wrap = .ok (.retrieve attrRef)

section
variable (F : FloatOps) (py : Python) (sc : Scope) (σ : Valuation)

/-- Whatever there is at the tainted spots, what Python keeps of the expression has its value. No
local in it holds an integer that is too long for a node. -/
structure Readable (tainted : Set Spot) (fr : Frame) (s : Records) (m : Memory)
    (e : Expr Symbol) : Prop where
  fits : ∀ symbol ∈ e.leaves, ∀ o, fr.object sc s.outputs symbol = .ok o → ∃ n, o.wrap = .ok n
  kept : ∀ val : Symbol → Option Value,
    (∀ symbol spot, sc.spot symbol = .ok spot → spot ∉ tainted → val symbol = m spot.place) →
      e.Kept F py σ (fr.object sc s.outputs) val (e.eval F (sc.value m))

/-- The assignment of the expression gives the target the value `v`. Where the recorder drops it,
the target has this value anyway. -/
def AssignsRight (tainted : Set Spot) (fr : Frame) (s : Records) (m : Memory) (e : Expr Symbol)
    (target : Spot) (v : Value) : Prop :=
  ∀ o, e.object py (fr.object sc s.outputs) = .ok o →
    (o.IsRead target → target ∉ tainted ∧ m target.place = some v) ∧
      (¬ o.IsRead target → Readable F py sc σ tainted fr s m e)

/-- The taint at the end of a branch that is called. -/
def Frame.callTaint (caller : Frame) (activity : Block.Activity) (stores : List Symbol)
    (taint : Frame → Records → Set Spot) (s : Records) : Set Spot :=
  { spot | ∃ callee s', caller.enter sc activity.args stores s = (.ok callee, s') ∧
    spot ∈ taint callee s' }

/-- The taint at the end of the branch that is selected. A branch starts with the taint of the if
statement, and the else branch also with what the if branch has changed. -/
def selectedTaint (activity : Block.Activity) (body orelse : List Symbol)
    (traceBody : Frame → Fallible Records PythonError Frame)
    (taintBody taintOrelse : Set Spot → Frame → Records → Set Spot) (tainted : Set Spot)
    (fr : Frame) (s : Records) : Bool → Set Spot
  | true => fr.callTaint sc activity body (taintBody tainted) s
  | false => { spot | ∃ ifOutputs s', fr.call sc activity body traceBody s = (.ok ifOutputs, s') ∧
      spot ∈ fr.callTaint sc activity orelse (taintOrelse (tainted ∪ fr.changed s s')) s' }

/-- What an if statement returns for a symbol is right: the condition is readable, and the symbol is
not tainted at the end of the selected branch. -/
def ReturnsRight (tainted : Set Spot) (fr : Frame) (s : Records) (m : Memory) (test : Expr Symbol)
    (selected : Set Spot) (symbol : Symbol) : Prop :=
  Readable F py sc σ tainted fr s m test ∧
    ∀ spot, sc.spot symbol = .ok spot → spot ∉ selected

/-- **The taint** at the end of a block, on the path that the store selects. -/
def Block.taint : Block Activity → Set Spot → Frame → Records → Memory → Set Spot
  | done, tainted, _, _, _ => tainted
  | assign target value rest, tainted, fr, s, m =>
    { spot | ∃ fr' s' dest v, traceAssign py sc target value fr s = (.ok fr', s') ∧
      sc.spot target = .ok dest ∧ value.eval F (sc.value m) = some v ∧
      spot ∈ rest.taint (dest.overwrite fr.outputs
        (AssignsRight F py sc σ tainted fr s m value dest v)
        (tainted ∪ stale m (m.set dest.place (some v)))) fr' s' (m.set dest.place (some v)) }
  | ifelse activity test body orelse rest, tainted, fr, s, m =>
    { spot | ∃ condition s₀ c b m' fr' s',
      test.trace py Fallible.ofExcept (fr.load sc) s = (.ok condition, s₀) ∧
      test.eval F (sc.value m) = some c ∧ c.getVal? Scalar.bool? = some b ∧
      select c (body.exec F sc m) (orelse.exec F sc m) = some m' ∧
      traceIfelse py sc activity test body.stores orelse.stores (body.trace py sc)
        (orelse.trace py sc) fr s = (.ok fr', s') ∧
      spot ∈ rest.taint (sc.overwriteAll fr.outputs
        (ReturnsRight F py sc σ tainted fr s m test
          (selectedTaint sc activity body.stores orelse.stores (body.trace py sc)
            (fun t fr s => body.taint t fr s m) (fun t fr s => orelse.taint t fr s m) tainted fr s₀
            b))
        activity.returns (tainted ∪ stale m m')) fr' s' m' }

end

/-! ## Spots and taints -/

section
variable {F : FloatOps} {py : Python} {sc : Scope} {σ : Valuation}

theorem Scope.spot_attr_iff {e c a : String} {spot : Spot} :
    sc.spot (.attr e c a) = .ok spot ↔ ∃ ref, sc.attrRef e c a = .ok ref ∧ spot = .attr e ref := by
  simp only [Scope.spot, Fallible.map_eq_ok_iff, eq_comm (b := spot)]

theorem Scope.place_of_spot {symbol : Symbol} {spot : Spot} (h : sc.spot symbol = .ok spot) :
    sc.place symbol = .ok spot.place := by
  cases symbol with
  | name id => cases h; rfl
  | attr e c a =>
    obtain ⟨ref, href, rfl⟩ := Scope.spot_attr_iff.mp h
    exact Scope.place_attr_iff.mpr ⟨ref, href, rfl⟩

theorem Scope.exists_spot {symbol : Symbol} {p : Place} (h : sc.place symbol = .ok p) :
    ∃ spot, sc.spot symbol = .ok spot ∧ spot.place = p := by
  cases symbol with
  | name id => cases h; exact ⟨.name id, rfl, rfl⟩
  | attr e c a =>
    obtain ⟨ref, href, rfl⟩ := Scope.place_attr_iff.mp h
    exact ⟨.attr e ref, Scope.spot_attr_iff.mpr ⟨ref, href, rfl⟩, rfl⟩

theorem Scope.value_of_spot {symbol : Symbol} {spot : Spot} (h : sc.spot symbol = .ok spot)
    (m : Memory) : sc.value m symbol = m spot.place := by
  rw [Scope.value, Scope.place_of_spot h]
  rfl

theorem Spot.mem_sharing (outputs : String → ℕ) (spot : Spot) : spot ∈ spot.sharing outputs := by
  cases spot with
  | name id => exact rfl
  | attr e ref => exact ⟨e, rfl, rfl⟩

@[simp] theorem Spot.mem_sharing_name {outputs : String → ℕ} {id : String} {spot : Spot} :
    spot ∈ (name id).sharing outputs ↔ spot = name id := Iff.rfl

@[simp] theorem Spot.mem_sharing_attr {outputs : String → ℕ} {e : String} {ref : AttributeRef}
    {spot : Spot} : spot ∈ (attr e ref).sharing outputs ↔
      ∃ e', spot = attr e' ref ∧ outputs e' = outputs e := Iff.rfl

theorem Spot.notMem_overwrite_iff {outputs : String → ℕ} {target spot : Spot} {right : Prop}
    {tainted : Set Spot} : spot ∉ target.overwrite outputs right tainted ↔
      (spot ∈ target.sharing outputs → right) ∧
        (spot ∉ target.sharing outputs → spot ∉ tainted) := by
  simp only [overwrite, Set.mem_union, Set.mem_sdiff, Set.mem_ofPred_eq]
  tauto

theorem Spot.overwrite_of_right {outputs : String → ℕ} {target : Spot} {right : Prop}
    (hright : right) {tainted : Set Spot} :
    target.overwrite outputs right tainted = tainted \ target.sharing outputs := by
  ext spot
  simp [overwrite, hright]

@[simp] theorem stale_self (m : Memory) : stale m m = ∅ := by
  ext spot
  simp [stale]

theorem eq_of_notMem_stale {m m' : Memory} (spot : Spot) (h : spot ∉ stale m m') :
    m' spot.place = m spot.place := not_not.mp h

theorem Scope.overwriteAll_mono {outputs : String → ℕ} {right : Symbol → Prop}
    {symbols : List Symbol} {tainted tainted' : Set Spot} (h : tainted ⊆ tainted') :
    sc.overwriteAll outputs right symbols tainted ⊆
      sc.overwriteAll outputs right symbols tainted' := by
  induction symbols generalizing tainted tainted' with
  | nil => exact h
  | cons symbol symbols ih =>
    refine ih ?_
    rintro spot ⟨target, htarget, hspot⟩
    exact ⟨target, htarget, hspot.imp_left fun hs => ⟨h hs.1, hs.2⟩⟩

/-- Where all variables record in the same dictionary, a store shows wherever its place changes. -/
theorem mem_sharing_of_stale {outputs : String → ℕ} {m : Memory} {v : Option Value}
    {dest spot : Spot} (houtputs : ∀ e e', outputs e = outputs e')
    (h : spot ∈ stale m (m.set dest.place v)) : spot ∈ dest.sharing outputs := by
  have hplace : spot.place = dest.place := by
    by_contra hne
    exact h (Memory.set_ne m hne v)
  cases dest with
  | name id =>
    cases spot with
    | name id' => cases hplace; rfl
    | attr e ref => cases hplace
  | attr e ref =>
    cases spot with
    | name id => cases hplace
    | attr e' ref' => cases hplace; exact ⟨e', rfl, houtputs e' e⟩

/-- What shares with a symbol that is overwritten need not be known before. -/
theorem Scope.overwriteAll_union {outputs : String → ℕ} {right : Symbol → Prop}
    {symbols : List Symbol} {tainted others : Set Spot}
    (h : ∀ spot ∈ others, ∃ symbol ∈ symbols, ∃ target, sc.spot symbol = .ok target ∧
      spot ∈ target.sharing outputs) :
    sc.overwriteAll outputs right symbols (tainted ∪ others) ⊆
      sc.overwriteAll outputs right symbols tainted := by
  induction symbols generalizing tainted others with
  | nil =>
    rintro spot (hspot | hspot)
    · exact hspot
    · obtain ⟨_, hm, -⟩ := h spot hspot
      cases hm
  | cons symbol symbols ih =>
    -- the others that the first store does not reach
    let later : Set Spot :=
      { spot ∈ others | ∀ target, sc.spot symbol = .ok target → spot ∉ target.sharing outputs }
    have hlater : ∀ spot ∈ later, ∃ symbol' ∈ symbols, ∃ target, sc.spot symbol' = .ok target ∧
        spot ∈ target.sharing outputs := by
      rintro spot ⟨hspot, hlater⟩
      obtain ⟨symbol', hm, target, htarget, hshare⟩ := h spot hspot
      rcases List.mem_cons.mp hm with rfl | hm
      · exact absurd hshare (hlater target htarget)
      · exact ⟨symbol', hm, target, htarget, hshare⟩
    have hfirst : { spot | ∃ target, sc.spot symbol = .ok target ∧
          spot ∈ target.overwrite outputs (right symbol) (tainted ∪ others) } ⊆
        { spot | ∃ target, sc.spot symbol = .ok target ∧
          spot ∈ target.overwrite outputs (right symbol) tainted } ∪ later := by
      rintro spot ⟨target, htarget, ⟨hspot | hspot, hshare⟩ | hspot⟩
      · exact .inl ⟨target, htarget, .inl ⟨hspot, hshare⟩⟩
      · refine .inr ⟨hspot, fun target' htarget' => ?_⟩
        rw [htarget] at htarget'
        cases htarget'
        exact hshare
      · exact .inl ⟨target, htarget, .inr hspot⟩
    exact (Scope.overwriteAll_mono hfirst).trans (ih hlater)

/-! ## The relation -/

/-- Away from the taint, what a frame finds in the records has the value that it has in the direct
execution. -/
structure Related (F : FloatOps) (σ : Valuation) (tainted : Set Spot) (fr : Frame) (s : Records)
    (m : Memory) : Prop where
  used : ∀ e, fr.outputs e < s.outputs.next
  locals : ∀ id o, fr.locals id = some o → .name id ∉ tainted → Denotes F σ o (m (.name id))
  attrs : ∀ e ref, '/' ∉ ref.attributeName.toList → .attr e ref ∉ tainted →
    denote F σ (Recorder.definition (s.outputs.cell (fr.outputs e)) ref) = m (.attr ref)

namespace Related
variable {tainted tainted' : Set Spot} {fr fr' : Frame} {s s' : Records} {m m' : Memory}

theorem mono (h : Related F σ tainted fr s m) (hsub : tainted ⊆ tainted') :
    Related F σ tainted' fr s m :=
  ⟨h.used, fun id o ho hid => h.locals id o ho fun ht => hid (hsub ht),
    fun e ref hr href => h.attrs e ref hr fun ht => href (hsub ht)⟩

theorem of_outputs_eq (h : Related F σ tainted fr s m) (hs : s'.outputs = s.outputs) :
    Related F σ tainted fr s' m :=
  ⟨by rw [hs]; exact h.used, h.locals, by rw [hs]; exact h.attrs⟩

/-- The object of a symbol that is not tainted stands for its value. -/
theorem denotes_object (h : Related F σ tainted fr s m) {symbol : Symbol}
    (hslash : symbol.SlashFree) {o : Object} (ho : fr.object sc s.outputs symbol = .ok o) :
    ∃ spot, sc.spot symbol = .ok spot ∧ (spot ∉ tainted → Denotes F σ o (m spot.place)) := by
  cases symbol with
  | name id =>
    have hlocal : fr.locals id = some o := by
      have hl : fr.lookup id = .ok o := ho
      rw [Frame.lookup] at hl
      cases hid : fr.locals id with
      | none => rw [hid] at hl; cases hl
      | some o' => rw [hid] at hl; cases hl; rfl
    exact ⟨.name id, rfl, h.locals id o hlocal⟩
  | attr e c a =>
    obtain ⟨ref, href, hok⟩ := Fallible.result_bind_eq_ok_iff.mp ho
    cases hok
    refine ⟨.attr e ref, Scope.spot_attr_iff.mpr ⟨ref, href, rfl⟩, fun hclean => ⟨_, rfl, ?_⟩⟩
    refine h.attrs e ref ?_ hclean
    rw [Scope.attributeName_of_attrRef href]
    exact hslash

/-- The object of a readable expression stands for its value. -/
theorem denotes_expr (h : Related F σ tainted fr s m) {e : Expr Symbol}
    (hslash : ∀ symbol ∈ e.leaves, symbol.SlashFree) (hread : Readable F py sc σ tainted fr s m e)
    {o : Object} (ho : e.object py (fr.object sc s.outputs) = .ok o) :
    Denotes F σ o (e.eval F (sc.value m)) := by
  classical
  -- at a tainted spot there is what the object there stands for
  let held (symbol : Symbol) : Option Value :=
    ((fr.object sc s.outputs symbol).bind Object.wrap).toOption.bind (denote F σ)
  let val (symbol : Symbol) : Option Value :=
    if ∃ spot, sc.spot symbol = .ok spot ∧ spot ∉ tainted then sc.value m symbol else held symbol
  refine (hread.kept val fun symbol spot hspot hclean => ?_).denotes ho fun symbol hm o' ho' => ?_
  · rw [← Scope.value_of_spot hspot m]
    exact if_pos ⟨spot, hspot, hclean⟩
  · obtain ⟨spot, hspot, hden⟩ := h.denotes_object (hslash symbol hm) ho'
    by_cases hclean : ∃ spot, sc.spot symbol = .ok spot ∧ spot ∉ tainted
    · obtain ⟨spot', hspot', hclean'⟩ := hclean
      rw [hspot] at hspot'
      cases hspot'
      rw [show val symbol = sc.value m symbol from if_pos ⟨spot, hspot, hclean'⟩,
        Scope.value_of_spot hspot]
      exact hden hclean'
    · obtain ⟨n, hn⟩ := hread.fits symbol hm o' ho'
      refine ⟨n, hn, ?_⟩
      rw [show val symbol = held symbol from if_neg hclean]
      simp only [held, ho', Except.bind, hn, Except.toOption, Option.bind_some]

/-- **A store.** The spots that share the dictionary of the target are right if the store is, and
the others where the place keeps its value. -/
theorem store (h : Related F σ tainted fr s m) {target : Symbol} {spot : Spot} {o : Object}
    {v : Option Value} {right : Prop} (hslash : target.SlashFree)
    (hspot : sc.spot target = .ok spot)
    (hright : right → (o.IsRead spot → spot ∉ tainted ∧ m spot.place = v) ∧
      (¬ o.IsRead spot → Denotes F σ o v))
    (hstore : fr.store sc o target s = (.ok fr', s')) :
    Related F σ (spot.overwrite fr.outputs right (tainted ∪ stale m (m.set spot.place v))) fr' s'
      (m.set spot.place v) := by
  cases target with
  | name id =>
    obtain ⟨rfl, rfl⟩ := Frame.store_name hstore
    cases hspot
    refine ⟨h.used, fun id' o' hid hclean => ?_, fun e ref hr hclean => ?_⟩
    · rw [Spot.notMem_overwrite_iff] at hclean
      change Denotes F σ o' (m.set (.name id) v (.name id'))
      by_cases heq : id' = id
      · subst heq
        have ho' : o' = o := (Option.some.inj ((if_pos rfl).symm.trans hid)).symm
        rw [ho', Memory.set_self]
        exact (hright (hclean.1 rfl)).2 id
      · have hid' : fr.locals id' = some o' := (if_neg heq).symm.trans hid
        rw [Memory.set_ne _ (by simpa using heq)]
        exact h.locals id' o' hid' fun ht => hclean.2 (by simpa using heq) (.inl ht)
    · rw [Spot.notMem_overwrite_iff] at hclean
      change _ = m.set (.name id) v (.attr ref)
      rw [Memory.set_ne _ (by simp)]
      exact h.attrs e ref hr fun ht => hclean.2 (by simp) (.inl ht)
  | attr e c a =>
    obtain ⟨ref, n, href, hn, rfl, hout⟩ := Frame.store_attr hstore
    obtain ⟨ref', href', rfl⟩ := Scope.spot_attr_iff.mp hspot
    rw [href] at href'
    cases href'
    have hname : '/' ∉ ref.attributeName.toList := by
      rw [Scope.attributeName_of_attrRef href]
      exact hslash
    refine ⟨by rw [hout]; exact h.used, fun id o' hid hclean => ?_, fun e' r hr hclean => ?_⟩
    · rw [Spot.notMem_overwrite_iff] at hclean
      change Denotes F σ o' (m.set (.attr ref) v (.name id))
      rw [Memory.set_ne _ (by simp)]
      exact h.locals id o' hid fun ht => hclean.2 (by simp) (.inl ht)
    · rw [Spot.notMem_overwrite_iff] at hclean
      by_cases hshare : r = ref ∧ fr'.outputs e' = fr'.outputs e
      · obtain ⟨rfl, hcell⟩ := hshare
        obtain ⟨hself, hden⟩ := hright (hclean.1 ⟨e', rfl, hcell⟩)
        change _ = m.set (.attr r) v (.attr r)
        rw [Memory.set_self, hout, hcell, Heap.cell_set_self]
        by_cases hretrieve : n = .retrieve r
        · -- the recorder drops the write, so the old definition has to do
          subst hretrieve
          obtain ⟨hclean', hold⟩ := hself hn
          rw [Recorder.setAttr_self, h.attrs e r hname hclean']
          exact hold
        · have hread : ¬ o.IsRead (.attr e r) := fun hr => by
            have hn' : o.wrap = .ok (.retrieve r) := hr
            rw [hn] at hn'
            cases hn'
            exact hretrieve rfl
          obtain ⟨n', hn', hv⟩ := hden hread
          rw [hn] at hn'
          cases hn'
          rw [Recorder.definition_setAttr hretrieve, if_pos rfl]
          exact hv
      · have hother := hclean.2 fun ⟨e'', heq, hcell⟩ => hshare (by cases heq; exact ⟨rfl, hcell⟩)
        have hkeeps : m.set (.attr ref) v (.attr r) = m (.attr r) :=
          eq_of_notMem_stale (.attr e' r) fun ht => hother (.inr ht)
        change _ = m.set (.attr ref) v (.attr r)
        rw [hkeeps, ← h.attrs e' r hr fun ht => hother (.inl ht), hout]
        by_cases hcell : fr'.outputs e' = fr'.outputs e
        · have hkey : toStrAttr r ≠ toStrAttr ref :=
            fun hk => hshare ⟨toStrAttr_injective hr hname hk, hcell⟩
          simp only [hcell, Heap.cell_set_self, Recorder.definition,
            Recorder.get?_setAttr_ne hkey]
        · rw [Heap.cell_set_ne _ hcell]

/-- What happens elsewhere taints at most what it changes. -/
theorem elsewhere (h : Related F σ tainted fr s m) (m' : Memory) {others : Set Spot}
    (hnext : s.outputs.next ≤ s'.outputs.next)
    (hothers : ∀ e ref, '/' ∉ ref.attributeName.toList →
      Recorder.definition (s'.outputs.cell (fr.outputs e)) ref ≠
        Recorder.definition (s.outputs.cell (fr.outputs e)) ref → .attr e ref ∈ others) :
    Related F σ (tainted ∪ stale m m' ∪ others) fr s' m' := by
  refine ⟨fun e => (h.used e).trans_le hnext, fun id o hid hclean => ?_,
    fun e ref hr hclean => ?_⟩
  · have hkeeps : m' (.name id) = m (.name id) :=
      eq_of_notMem_stale (.name id) fun ht => hclean (.inl (.inr ht))
    rw [hkeeps]
    exact h.locals id o hid fun ht => hclean (.inl (.inl ht))
  · have hkeeps : m' (.attr ref) = m (.attr ref) :=
      eq_of_notMem_stale (.attr e ref) fun ht => hclean (.inl (.inr ht))
    rw [hkeeps, ← h.attrs e ref hr fun ht => hclean (.inl (.inl ht))]
    by_contra hne
    exact hclean (.inr (hothers e ref hr fun heq => hne (by rw [heq])))

/-- A branch starts out from what the caller has. -/
theorem enter (h : Related F σ tainted fr s m) {args : List String} {stores : List Symbol}
    {callee : Frame} (hent : Entered sc args stores fr callee s s') :
    Related F σ tainted callee s' m := by
  refine ⟨hent.used h.used, fun id o hid => h.locals id o (hent.locals id o hid),
    fun e ref hr hclean => ?_⟩
  rw [← h.attrs e ref hr hclean]
  by_cases hcapt : e ∈ args ∧ (sc.entities e).isSome
  · rw [(hent.captured e hcapt.1 hcapt.2).copied]
  · have hclosure : e ∉ args ∨ sc.entities e = none := by
      by_cases harg : e ∈ args
      · exact .inr (Option.not_isSome_iff_eq_none.mp fun hs => hcapt ⟨harg, hs⟩)
      · exact .inl harg
    rw [hent.closure e hclosure, hent.extends_.cell _ (h.used e)]

/-- Stores of what the places hold anyway. -/
theorem storeAll (h : Related F σ tainted fr s m) {right : Symbol → Prop} {symbols : List Symbol}
    {os : List Object} (hslash : ∀ symbol ∈ symbols, symbol.SlashFree)
    (hos : List.Forall₂ (fun symbol o => (right symbol → Denotes F σ o (sc.value m symbol)) ∧
      ∀ ref, o.wrap ≠ .ok (.retrieve ref)) symbols os)
    (hstore : fr.storeAll sc (symbols.zip os) s = (.ok fr', s')) :
    Related F σ (sc.overwriteAll fr.outputs right symbols tainted) fr' s' m := by
  induction hos generalizing tainted fr s with
  | nil =>
    cases hstore
    exact h
  | @cons symbol o symbols os hhead _ ih =>
    obtain ⟨fr₁, s₁, hone, hstore⟩ := Fallible.bind_eq_ok_iff.mp hstore
    have hspot : ∃ spot, sc.spot symbol = .ok spot := by
      cases symbol with
      | name id => exact ⟨_, rfl⟩
      | attr e c a =>
        obtain ⟨ref, -, href, -⟩ := Frame.store_attr hone
        exact ⟨_, Scope.spot_attr_iff.mpr ⟨ref, href, rfl⟩⟩
    obtain ⟨spot, hspot⟩ := hspot
    have hkeeps : right symbol → (o.IsRead spot → spot ∉ tainted ∧ m spot.place = m spot.place) ∧
        (¬ o.IsRead spot → Denotes F σ o (m spot.place)) := by
      refine fun hright => ⟨fun hread => ?_, fun _ => Scope.value_of_spot hspot m ▸ hhead.1 hright⟩
      cases spot with
      | name id => cases hread
      | attr e ref => exact absurd hread (hhead.2 ref)
    have hone' := h.store (hslash symbol (.head _)) hspot hkeeps hone
    rw [Memory.set_eq_self, stale_self, Set.union_empty] at hone'
    have hrest := ih hone' (fun symbol hm => hslash symbol (.tail _ hm)) hstore
    rw [(framed_store hone).outputs] at hrest
    refine hrest.mono (Scope.overwriteAll_mono ?_)
    exact fun spot' hspot' => ⟨spot, hspot, hspot'⟩

end Related

/-! ## The simulation -/

/-- The switch on a condition stands for what the selected object stands for. -/
theorem switch_denotes_selected {condition ifOut elseOut o : Object} {c : Value} {b : Bool}
    {v : Option Value} (hc : Denotes F σ condition (some c)) (hb : c.getVal? Scalar.bool? = some b)
    (hsel : Denotes F σ (if b then ifOut else elseOut) v)
    (ho : Plotter.switch condition ifOut elseOut = .ok o) : Denotes F σ o v := by
  obtain ⟨k, hk, h⟩ := Fallible.result_bind_eq_ok_iff.mp ho
  obtain ⟨n, hn, h⟩ := Fallible.result_bind_eq_ok_iff.mp h
  obtain ⟨n', hn', h⟩ := Fallible.result_bind_eq_ok_iff.mp h
  have hswitch := Plotter.switch_denotes hc ⟨n, hn, rfl⟩ ⟨n', hn', rfl⟩ ho
  have hsel' : select c (denote F σ n) (denote F σ n') = v := by
    rw [select, hb]
    cases b with
    | true => exact Denotes.unique ⟨n, hn, rfl⟩ hsel
    | false => exact Denotes.unique ⟨n', hn', rfl⟩ hsel
  rw [Option.bind_some, hsel'] at hswitch
  exact hswitch

theorem switch_wrap_ne {condition ifOut elseOut o : Object}
    (ho : Plotter.switch condition ifOut elseOut = .ok o) (ref : AttributeRef) :
    o.wrap ≠ .ok (.retrieve ref) := by
  obtain ⟨k, -, h⟩ := Fallible.result_bind_eq_ok_iff.mp ho
  obtain ⟨n, -, h⟩ := Fallible.result_bind_eq_ok_iff.mp h
  obtain ⟨n', -, h⟩ := Fallible.result_bind_eq_ok_iff.mp h
  cases h
  exact fun hr => by cases hr

/-- The objects of the symbols stand for their values, where these are right. -/
def Returned (F : FloatOps) (sc : Scope) (σ : Valuation) (m : Memory) (right : Symbol → Prop) :
    List Symbol → List Object → Prop :=
  List.Forall₂ fun symbol o => right symbol → Denotes F σ o (sc.value m symbol)

/-- What a branch returns stands for the values at its end. -/
theorem Related.returned {tainted : Set Spot} {callee : Frame} {s : Records} {m : Memory}
    (h : Related F σ tainted callee s m) {returns : List Symbol}
    (hslash : ∀ symbol ∈ returns, symbol.SlashFree) {os : List Object}
    (hos : List.Forall₂ (fun symbol o => callee.object sc s.outputs symbol = .ok o) returns os) :
    Returned F sc σ m (fun symbol => ∀ spot, sc.spot symbol = .ok spot → spot ∉ tainted)
      returns os := by
  induction hos with
  | nil => exact .nil
  | cons hhead _ ih =>
    refine .cons (fun hclean => ?_) (ih fun symbol hm => hslash symbol (.tail _ hm))
    obtain ⟨spot, hspot, hden⟩ := h.denotes_object (hslash _ (.head _)) hhead
    rw [Scope.value_of_spot hspot]
    exact hden (hclean spot hspot)

/-- The traced block does what the block does when it is executed, away from its taint. -/
def Block.Simulates (F : FloatOps) (py : Python) (sc : Scope) (σ : Valuation)
    (b : Block Block.Activity) : Prop :=
  ∀ tainted fr s m fr' s' m', Related F σ tainted fr s m → b.trace py sc fr s = (.ok fr', s') →
    b.exec F sc m = some m' → Related F σ (b.taint F py sc σ tainted fr s m) fr' s' m'

section
variable {tainted : Set Spot} {fr fr' : Frame} {s s' : Records} {m m' : Memory}
  {activity : Block.Activity} {test : Expr Symbol} {body orelse : Block Block.Activity}

/-- **The selected branch** returns the values at its end. -/
theorem Related.returned_call (h : Related F σ tainted fr s m) {block : Block Block.Activity}
    {os : List Object} (hsim : block.Simulates F py sc σ)
    (hslash : ∀ symbol ∈ activity.returns, symbol.SlashFree)
    (hexec : block.exec F sc m = some m')
    (hcall : fr.call sc activity block.stores (block.trace py sc) s = (.ok os, s')) :
    Returned F sc σ m' (fun symbol => ∀ spot, sc.spot symbol = .ok spot →
      spot ∉ fr.callTaint sc activity block.stores
        (fun fr s => block.taint F py sc σ tainted fr s m) s) activity.returns os := by
  obtain ⟨callee, s₁, callee', s₂, henter, hblock, hos, -⟩ := call_eq_ok hcall
  have hcallee := h.enter (entered_of_enter h.used henter)
  have hend := hsim _ _ _ _ _ _ _ hcallee hblock hexec
  refine (hend.returned hslash hos).imp fun symbol o hden hclean => hden fun spot hspot ht => ?_
  exact hclean spot hspot ⟨callee, s₁, henter, ht⟩

/-- What both branches have changed is returned. -/
theorem changed_of_branches {ifOutputs elseOutputs : List Object} {s₁ : Records}
    (hreturns : ∀ symbol, symbol ∈ activity.returns ↔ symbol ∈ body.stores ∨ symbol ∈ orelse.stores)
    (hslash : ∀ symbol ∈ activity.returns, symbol.SlashFree) (hbody : body.ReturnsStores)
    (horelse : orelse.ReturnsStores) (hused : ∀ e, fr.outputs e < s.outputs.next)
    (hif : fr.call sc activity body.stores (body.trace py sc) s = (.ok ifOutputs, s₁))
    (helse : fr.call sc activity orelse.stores (orelse.trace py sc) s₁ = (.ok elseOutputs, s')) :
    s.outputs.next ≤ s'.outputs.next ∧ ∀ e ref, '/' ∉ ref.attributeName.toList →
      Recorder.definition (s'.outputs.cell (fr.outputs e)) ref ≠
        Recorder.definition (s.outputs.cell (fr.outputs e)) ref →
      ∃ symbol ∈ activity.returns, ∃ target, sc.spot symbol = .ok target ∧
        Spot.attr e ref ∈ target.sharing fr.outputs := by
  have hbody' := (framed_call (fun _ _ _ _ hu ht => body.framed_trace hbody hu ht) hused hif).confined
  have horelse' := (framed_call
    (fun _ _ _ _ hu ht => orelse.framed_trace horelse hu ht)
    (fun e => (hused e).trans_le hbody'.next) helse).confined
  refine ⟨hbody'.next.trans horelse'.next, fun e ref hr hne => ?_⟩
  by_contra hno
  -- nothing that is returned has the key of the attribute
  have huntouched : Untouched sc fr activity.returns (fr.outputs e) (toStrAttr ref) := by
    intro e' c a ref' hm hcell href hkey
    have hr' : '/' ∉ ref'.attributeName.toList := by
      rw [Scope.attributeName_of_attrRef href]
      exact hslash _ hm
    obtain rfl := toStrAttr_injective hr hr' hkey
    exact hno ⟨_, hm, _, Scope.spot_attr_iff.mpr ⟨ref, href, rfl⟩, e, rfl, hcell.symm⟩
  apply hne
  simp only [Recorder.definition]
  rw [horelse'.get? _ ((hused e).trans_le hbody'.next), hbody'.get? _ (hused e)]
  · exact fun e' c a ref' hm => huntouched e' c a ref'
      ((hreturns _).mpr (.inl (List.mem_of_mem_filter hm)))
  · exact fun e' c a ref' hm => huntouched e' c a ref'
      ((hreturns _).mpr (.inr (List.mem_of_mem_filter hm)))

/-- The switches stand for the values of the selected branch. -/
theorem returned_switches {condition : Object} {c : Value} {b : Bool} {returns : List Symbol}
    {ifOutputs elseOutputs outputs : List Object} {P : Prop} {right : Symbol → Prop}
    (hc : P → Denotes F σ condition (some c)) (hb : c.getVal? Scalar.bool? = some b)
    (hif : ifOutputs.length = returns.length) (helse : elseOutputs.length = returns.length)
    (hsel : Returned F sc σ m' right returns (if b then ifOutputs else elseOutputs))
    (hswitch : switchOutputs condition ifOutputs elseOutputs = .ok outputs) :
    List.Forall₂ (fun symbol o => (P ∧ right symbol → Denotes F σ o (sc.value m' symbol)) ∧
      ∀ ref, o.wrap ≠ .ok (.retrieve ref)) returns outputs := by
  have hany : ∀ {os : List Object}, os.length = returns.length →
      List.Forall₂ (fun _ _ => True) returns os := fun hlen =>
    List.forall₂_iff_zip.mpr ⟨hlen.symm, fun _ => trivial⟩
  cases b with
  | true =>
    refine (switchOutputs_eq_ok hsel (hany helse) hswitch).imp ?_
    rintro symbol o ⟨ifOut, elseOut, hd, -, ho⟩
    exact ⟨fun h => switch_denotes_selected (hc h.1) hb (hd h.2) ho, switch_wrap_ne ho⟩
  | false =>
    refine (switchOutputs_eq_ok (hany hif) hsel hswitch).imp ?_
    rintro symbol o ⟨ifOut, elseOut, -, hd, ho⟩
    exact ⟨fun h => switch_denotes_selected (hc h.1) hb (hd h.2) ho, switch_wrap_ne ho⟩

/-- **One if statement**, when both branches are simulated. -/
theorem related_traceIfelse {c : Value} {b : Bool} {condition : Object} {s₀ : Records}
    (hreturns : ∀ symbol, symbol ∈ activity.returns ↔ symbol ∈ body.stores ∨ symbol ∈ orelse.stores)
    (hbodyReturns : body.ReturnsStores) (horelseReturns : orelse.ReturnsStores)
    (hslash : ∀ symbol ∈ test.leaves ++ (body.symbols ++ orelse.symbols), symbol.SlashFree)
    (hbody : body.Simulates F py sc σ) (horelse : orelse.Simulates F py sc σ)
    (h : Related F σ tainted fr s m)
    (htrace : traceIfelse py sc activity test body.stores orelse.stores (body.trace py sc)
      (orelse.trace py sc) fr s = (.ok fr', s'))
    (hcond : test.trace py Fallible.ofExcept (fr.load sc) s = (.ok condition, s₀))
    (htest : test.eval F (sc.value m) = some c) (hb : c.getVal? Scalar.bool? = some b)
    (hexec : select c (body.exec F sc m) (orelse.exec F sc m) = some m') :
    Related F σ (sc.overwriteAll fr.outputs
      (ReturnsRight F py sc σ tainted fr s m test
        (selectedTaint sc activity body.stores orelse.stores (body.trace py sc)
          (fun t fr s => body.taint F py sc σ t fr s m)
          (fun t fr s => orelse.taint F py sc σ t fr s m) tainted fr s₀ b))
      activity.returns (tainted ∪ stale m m')) fr' s' m' := by
  obtain ⟨condition', s₀', ifOutputs, s₁, elseOutputs, s₂, outputs, hcond', hif, helse, hswitch,
    hstore⟩ := traceIfelse_eq_ok htrace
  rw [hcond] at hcond'
  obtain ⟨⟨⟩, ⟨⟩⟩ := Prod.ext_iff.mp hcond'
  obtain ⟨hobj, hs₀⟩ := Frame.trace_eq_ok hcond
  have hdenotes : Readable F py sc σ tainted fr s m test → Denotes F σ condition (some c) :=
    fun hread => htest ▸ h.denotes_expr (fun symbol hm => hslash symbol (by simp [hm])) hread hobj
  have h₀ := h.of_outputs_eq hs₀
  have hretSlash : ∀ symbol ∈ activity.returns, symbol.SlashFree := fun symbol hm =>
    hslash symbol (List.mem_append_right _ (List.mem_append.mpr (((hreturns symbol).mp hm).imp
      (fun hb => body.stores_subset_symbols hb) fun ho => orelse.stores_subset_symbols ho)))
  -- the selected branch returns the values at its end
  have hsel : Returned F sc σ m' (fun symbol => ∀ spot, sc.spot symbol = .ok spot →
      spot ∉ selectedTaint sc activity body.stores orelse.stores (body.trace py sc)
        (fun t fr s => body.taint F py sc σ t fr s m)
        (fun t fr s => orelse.taint F py sc σ t fr s m) tainted fr s₀ b)
      activity.returns (if b then ifOutputs else elseOutputs) := by
    rw [select, hb] at hexec
    cases b with
    | true => exact h₀.returned_call hbody hretSlash hexec hif
    | false =>
      have hnext := (framed_call (fun _ _ _ _ hu ht => body.framed_trace hbodyReturns hu ht)
        h₀.used hif).next
      have hchanges : ∀ e ref, '/' ∉ ref.attributeName.toList →
          Recorder.definition (s₁.outputs.cell (fr.outputs e)) ref ≠
            Recorder.definition (s₀.outputs.cell (fr.outputs e)) ref →
          .attr e ref ∈ fr.changed s₀ s₁ := fun e ref _ hne => ⟨e, ref, rfl, hne⟩
      have hleft := h₀.elsewhere m hnext hchanges
      rw [stale_self, Set.union_empty] at hleft
      refine (hleft.returned_call horelse hretSlash hexec helse).imp
        fun symbol o hden hclean => hden fun spot hspot ht => hclean spot hspot ?_
      exact ⟨ifOutputs, s₁, hif, ht⟩
  have hlength : ∀ {block : Block Block.Activity} {os : List Object} {s s' : Records},
      fr.call sc activity block.stores (block.trace py sc) s = (.ok os, s') →
        os.length = activity.returns.length := fun hcall => by
    obtain ⟨_, _, _, _, -, -, hos, -⟩ := call_eq_ok hcall
    exact hos.length_eq.symm
  -- and assigning the switches overwrites what the branches have changed
  obtain ⟨hnext, hchanged⟩ := changed_of_branches hreturns hretSlash hbodyReturns horelseReturns
    h₀.used hif helse
  let returned : Set Spot := { spot | ∃ symbol ∈ activity.returns, ∃ target,
    sc.spot symbol = .ok target ∧ spot ∈ target.sharing fr.outputs }
  have hboth : Related F σ (tainted ∪ stale m m' ∪ returned) fr s₂ m' :=
    h₀.elsewhere m' hnext hchanged
  refine (hboth.storeAll hretSlash (returned_switches hdenotes hb (hlength hif) (hlength helse)
    hsel hswitch) hstore).mono (Scope.overwriteAll_union ?_)
  exact fun spot hspot => hspot

end

/-- **The simulation.** -/
theorem Block.simulates {b : Block Block.Activity} (hb : b.ReturnsStores)
    (hslash : ∀ symbol ∈ b.symbols, symbol.SlashFree) : b.Simulates F py sc σ := by
  induction b with
  | done =>
    intro tainted fr s m fr' s' m' h htrace hexec
    cases htrace
    cases hexec
    exact h
  | assign target value rest ih =>
    intro tainted fr s m fr' s' m' h htrace hexec
    obtain ⟨fr₁, s₁, hassign, htrace⟩ := Fallible.bind_eq_ok_iff.mp htrace
    obtain ⟨o, s₀, hvalue, hstore⟩ := Fallible.bind_eq_ok_iff.mp hassign
    simp only [exec, Option.bind_eq_bind, Option.bind_eq_some_iff] at hexec
    obtain ⟨v, hv, p, hplace, hexec⟩ := hexec
    obtain ⟨spot, hspot, rfl⟩ := Scope.exists_spot (Fallible.toOption_eq_some_iff.mp hplace)
    obtain ⟨hobj, hs₀⟩ := Frame.trace_eq_ok hvalue
    have hright : AssignsRight F py sc σ tainted fr s m value spot v →
        (o.IsRead spot → spot ∉ tainted ∧ m spot.place = some v) ∧
          (¬ o.IsRead spot → Denotes F σ o (some v)) := by
      refine fun hright => ⟨(hright o hobj).1, fun hread => ?_⟩
      rw [← hv]
      exact h.denotes_expr (fun symbol hm => hslash symbol (by simp [symbols, hm]))
        ((hright o hobj).2 hread) hobj
    have hstored := (h.of_outputs_eq hs₀).store (hslash target (by simp [symbols])) hspot hright
      hstore
    refine (ih hb (fun symbol hm => hslash symbol (by simp [symbols, hm])) _ _ _ _ _ _ _ hstored
      htrace hexec).mono fun spot' ht => ?_
    exact ⟨fr₁, s₁, spot, v, hassign, hspot, hv, ht⟩
  | ifelse activity test body orelse rest hbody horelse hrest =>
    intro tainted fr s m fr' s' m' h htrace hexec
    obtain ⟨hreturns, hbodyReturns, horelseReturns, hrestReturns⟩ := hb
    obtain ⟨fr₁, s₁, hifelse, htrace⟩ := Fallible.bind_eq_ok_iff.mp htrace
    simp only [exec, Option.bind_eq_bind, Option.bind_eq_some_iff] at hexec
    obtain ⟨c, htest, m₁, hselect, hexec⟩ := hexec
    have hbool : ∃ b, c.getVal? Scalar.bool? = some b := by
      rw [select] at hselect
      split at hselect
      next hc => exact ⟨true, hc⟩
      next hc => exact ⟨false, hc⟩
      next => cases hselect
    obtain ⟨b, hb⟩ := hbool
    obtain ⟨condition, s₀, -, -, -, -, -, hcond, -⟩ := traceIfelse_eq_ok hifelse
    have hslash' : ∀ symbol, symbol ∈ test.leaves ++ (body.symbols ++ orelse.symbols) ∨
        symbol ∈ rest.symbols → symbol.SlashFree := by
      intro symbol hm
      refine hslash symbol ?_
      simp only [symbols, List.mem_append] at hm ⊢
      tauto
    have hone := related_traceIfelse hreturns hbodyReturns horelseReturns
      (fun symbol hm => hslash' symbol (.inl hm))
      (hbody hbodyReturns fun symbol hm => hslash' symbol (.inl (by simp [hm])))
      (horelse horelseReturns fun symbol hm => hslash' symbol (.inl (by simp [hm]))) h hifelse hcond
      htest hb hselect
    refine (hrest hrestReturns (fun symbol hm => hslash' symbol (.inr hm)) _ _ _ _ _ _ _ hone htrace
      hexec).mono fun spot ht => ?_
    exact ⟨condition, s₀, c, b, m₁, fr₁, s₁, hcond, htest, hb, hselect, hifelse, ht⟩

end

/-! ## Constants -/

section
variable {F : FloatOps} {py : Python} {sc : Scope} {σ : Valuation} {tainted : Set Spot}
  {fr : Frame} {s : Records} {m : Memory}

theorem readable_attr {e c a : String} {spot : Spot} (hspot : sc.spot (.attr e c a) = .ok spot)
    (hclean : spot ∉ tainted) : Readable F py sc σ tainted fr s m (.leaf (.attr e c a)) := by
  refine ⟨fun symbol hm o ho => ?_, fun val hval => ?_⟩
  · obtain rfl := List.mem_singleton.mp hm
    obtain ⟨ref, -, hok⟩ := Fallible.result_bind_eq_ok_iff.mp ho
    cases hok
    exact ⟨_, rfl⟩
  · exact (hval _ spot hspot hclean).trans (Scope.value_of_spot hspot m).symm

theorem assignsRight_const {val : Native} {target : Spot} {v : Value}
    (hval : (Expr.const val : Expr Symbol).eval F (sc.value m) = some v) :
    AssignsRight F py sc σ tainted fr s m (.const val) target v := by
  have hwrap : wrapPrimitive val = .ok v := Fallible.toOption_eq_some_iff.mp hval
  rintro o ho
  cases ho
  refine ⟨fun hread => ?_, fun _ => ⟨fun _ hm => (List.not_mem_nil hm).elim, fun _ _ => ?_⟩⟩
  · cases target with
    | name id => cases hread
    | attr e ref =>
      have hread' : (Object.native val).wrap = .ok (.retrieve ref) := hread
      simp only [Object.wrap, hwrap] at hread'
      cases hread'
  · rw [hval]
    exact denotes_native_iff.mpr hval

/-- The assignment of a constant cleans its target. -/
theorem Block.taint_assign_const {target : Symbol} {val : Native} {rest : Block Activity}
    {spot : Spot} (h : spot ∈ (assign target (.const val) rest).taint F py sc σ tainted fr s m) :
    ∃ fr' s' dest v, fr'.outputs = fr.outputs ∧ sc.spot target = .ok dest ∧
      spot ∈ rest.taint F py sc σ ((tainted ∪ stale m (m.set dest.place (some v))) \
        dest.sharing fr.outputs) fr' s' (m.set dest.place (some v)) := by
  obtain ⟨fr', s', dest, v, hassign, hdest, hval, hspot⟩ := h
  refine ⟨fr', s', dest, v, (framed_traceAssign hassign).outputs, hdest, ?_⟩
  rwa [Spot.overwrite_of_right (assignsRight_const hval)] at hspot

end

/-- The variables of a function go on recording where they did. -/
theorem outputs_of_traceIfelse {py : Python} {sc : Scope} {activity : Block.Activity}
    {test : Expr Symbol} {body orelse : List Symbol}
    {traceBody traceOrelse : Frame → Fallible Records PythonError Frame} {fr fr' : Frame}
    {s s' : Records}
    (h : traceIfelse py sc activity test body orelse traceBody traceOrelse fr s = (.ok fr', s')) :
    fr'.outputs = fr.outputs := by
  obtain ⟨_, _, _, _, _, _, outputs, _, _, _, _, hstore⟩ := traceIfelse_eq_ok h
  exact (framed_storeAll (fun _ hm => List.mem_map_of_mem hm) hstore).outputs

/-! ## Whole functions -/

namespace ConvertFn
variable {F : FloatOps} {py : Python} {fn : ConvertFn} {σ : Valuation}

/-- The condition for a whole function: in the end none of its attributes is tainted. -/
def Sound (F : FloatOps) (py : Python) (fn : ConvertFn) (σ : Valuation) : Prop :=
  ∀ entity attrRef, .attr entity attrRef ∉
    fn.body.analyzeActivity.taint F py fn.scope σ ∅ frame records (Memory.start σ)

theorem related_start (F : FloatOps) (σ : Valuation) :
    Related F σ ∅ frame records (Memory.start σ) where
  used _ := Nat.zero_lt_one
  locals _ _ h := by cases h
  attrs _ _ _ _ := rfl

/-- What is known of a compiled function without its values. -/
theorem keyed_of_compile {r : Recorder} (hcompile : fn.compile py = .ok r) :
    ∃ fr s, fn.body.analyzeActivity.trace py fn.scope frame records = (.ok fr, s) ∧
      r = ⟨s.inputs, s.outputs.cell 0⟩ ∧ s.Keyed ∧
      Framed fn.scope fn.body.stores frame fr records s := by
  rw [compile] at hcompile
  rcases htrace : fn.body.analyzeActivity.trace py fn.scope frame records with ⟨e | fr, s⟩
  · rw [htrace] at hcompile; cases hcompile
  rw [htrace] at hcompile
  cases hcompile
  have hreturns : fn.body.analyzeActivity.ReturnsStores := Block.returnsStores_annotate _ _ _
  have hstores : fn.body.analyzeActivity.stores = fn.body.stores := Block.stores_annotate _ _ _
  refine ⟨fr, s, rfl, rfl, ?_, ?_⟩
  · refine (Block.trace_keyed hreturns (fun symbol hm => ?_) frame).run records_keyed htrace
    rw [hstores] at hm
    exact fn.slashFree symbol (Block.stores_subset_symbols _ hm)
  · have hframed := Block.framed_trace hreturns (fun _ => Nat.zero_lt_one) htrace
    rwa [hstores] at hframed

/-- Where a sound function has recorded a definition or none, an attribute has the value of its
definition in the end. -/
theorem definitions_of_sound {r : Recorder} {final : Memory} (hcompile : fn.compile py = .ok r)
    (hexec : fn.exec F σ = some final) (hsound : fn.Sound F py σ) (ref : AttributeRef)
    (href : '/' ∉ ref.attributeName.toList) :
    denote F σ (Recorder.definition r.outputs ref) = final (.attr ref) := by
  obtain ⟨fr, s, htrace, rfl, -, hframed⟩ := keyed_of_compile hcompile
  have hslash : ∀ symbol ∈ fn.body.analyzeActivity.symbols, symbol.SlashFree := by
    rw [Block.analyzeActivity, Block.symbols_annotate]
    exact fn.slashFree
  have hexec' : fn.body.analyzeActivity.exec F fn.scope (Memory.start σ) = some final := by
    rw [Block.analyzeActivity, Block.exec_annotate]
    exact hexec
  have hrel := Block.simulates (Block.returnsStores_annotate _ _ _) hslash _ _ _ _ _ _ _
    (related_start F σ) htrace hexec'
  have h := hrel.attrs "" ref href (hsound "" ref)
  rwa [hframed.outputs] at h

/-- Where the condition holds, the recorded outputs of a function have the values that the function
gives their attributes when it is executed. -/
theorem yields_of_sound {r : Recorder} {final : Memory} (hcompile : fn.compile py = .ok r)
    (hexec : fn.exec F σ = some final) (hsound : fn.Sound F py σ) :
    Yields F σ r.graph final := by
  have hval := definitions_of_sound hcompile hexec hsound
  obtain ⟨fr, s, htrace, rfl, hkeyed, -⟩ := keyed_of_compile hcompile
  constructor
  · intro o ho
    obtain ⟨⟨key, o'⟩, hentry, rfl⟩ := List.mem_map.mp ho
    have hget := OrderedDict.get?_eq_some_iff.mpr hentry
    obtain ⟨rfl, hname⟩ := hkeyed 0 key o' hget
    rw [← hval _ hname]
    simp only [Recorder.definition, hget]
  · intro ref href
    by_cases hname : '/' ∈ ref.attributeName.toList
    · -- no symbol stands for such an attribute
      refine Block.exec_eq_of_ne hexec fun symbol hm hplace => ?_
      cases symbol with
      | name id => cases hplace
      | attr e c a =>
        obtain ⟨ref', href', heq⟩ := Scope.place_attr_iff.mp hplace
        cases heq
        rw [Scope.attributeName_of_attrRef href'] at hname
        exact fn.slashFree _ (Block.stores_subset_symbols _ hm) hname
    · rw [← hval ref hname, Recorder.definition]
      split
      next o hget =>
        obtain ⟨hkey, hname'⟩ := hkeyed 0 _ o hget
        exact absurd (toStrAttr_injective hname hname' hkey).symm
          (href o (List.mem_map_of_mem (OrderedDict.get?_eq_some_iff.mp hget)))
      next => rfl

/-! ### Braking -/

/-- What the if branch leaves behind is overwritten by the assignment behind the if statement. -/
theorem sound_brakeAndMove : brakeAndMove.Sound default default moving := by
  rintro e ref ⟨condition, s₀, c, b, m', fr', s', -, htest, -, hselect, hifelse, hspot⟩
  obtain ⟨fr'', s'', dest, v, -, hdest, hspot, hother⟩ := Block.taint_assign_const hspot
  cases hdest
  rw [outputs_of_traceIfelse hifelse] at hother
  -- the direct execution takes the empty branch
  cases htest
  cases hselect
  rcases hspot with ⟨target, htarget, ⟨hspot, -⟩ | ⟨hspot, -⟩⟩ | hspot
  · simp at hspot
  · cases htarget
    exact hother hspot
  · exact hother (mem_sharing_of_stale (fun _ _ => rfl) hspot)

end ConvertFn
end Bentobox.Sdk
