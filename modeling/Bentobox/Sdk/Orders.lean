import Bentobox.Lib.Recency
import Bentobox.Sdk.IfElse

/-!
# The order of the outputs

`set_attr` moves what it records to the end of the outputs, so the outputs of straight-line
code are in the order of the code. What `transform_ifelse` puts behind an if statement are
assignments in the order of the keys of `output_syms`, in which the stores of nested if
statements come before those of the branches they are in.

What a later statement assigns again is moved once more, so only the other attributes show
the difference (`Block.KeepsOrder`).
-/
namespace Bentobox.Sdk

open Recency

/-! ## Outputs in program order -/

/-- The attribute that a symbol stands for. -/
def Scope.attrRef? (sc : Scope) : Symbol → Option AttributeRef
  | .name _ => none
  | .attr entity component attributeName => (sc.attrRef entity component attributeName).toOption

def Scope.attrRefs (sc : Scope) (symbols : List Symbol) : List AttributeRef :=
  symbols.filterMap sc.attrRef?

/-- The outputs have each assigned attribute once, in the order of the last assignments. -/
structure ConvertFn.Ordered (fn : ConvertFn) (g : Graph) : Prop where
  once : (g.outputs.map Mutate.mutateAttr).Nodup
  assigned : ∀ ref, ref ∈ g.outputs.map Mutate.mutateAttr ↔ ref ∈ fn.scope.attrRefs fn.body.stores
  ordered : (g.outputs.map Mutate.mutateAttr).Pairwise
    (LastBefore (fn.scope.attrRefs fn.body.stores))

/-! ## The condition -/

namespace Block
variable {α : Type}

/-- The assignments of an if statement as one comes across them from the inside out. -/
def insideOut (body orelse : Block α) : List Symbol :=
  body.outputSyms ++ orelse.outputSyms ++ (body.ownStores ++ orelse.ownStores)

/-- No assignment has its own target for its value. -/
def NoSelf : Block α → Prop
  | done => True
  | assign target value rest => value ≠ .leaf target ∧ rest.NoSelf
  | ifelse _ _ body orelse rest => body.NoSelf ∧ orelse.NoSelf ∧ rest.NoSelf

/-- Two attributes that an if statement assigns and that nothing behind it assigns have their last
assignments in the same order as their first ones from the inside out. -/
def KeepsOrder (sc : Scope) : Block α → Prop
  | done => True
  | assign _ _ rest => rest.KeepsOrder sc
  | ifelse _ _ body orelse rest =>
    (∀ a b, a ∉ sc.attrRefs rest.stores → b ∉ sc.attrRefs rest.stores →
      LastBefore (sc.attrRefs (body.stores ++ orelse.stores)) a b →
        LastBefore (sc.attrRefs (insideOut body orelse).eraseDups) a b) ∧
    rest.KeepsOrder sc

end Block

/-- The attributes with a recorded output, in the order of the outputs. -/
def Records.recorded (s : Records) : List AttributeRef :=
  (s.outputs.cell 0).values.map Mutate.mutateAttr

variable (py : Python) (sc : Scope)

/-- `set_attr` ignores the assignment, because the value retrieves the attribute itself. -/
def Ignored (target : Symbol) (value : Expr Symbol) (fr : Frame) (s : Records)
    (ref : AttributeRef) : Prop :=
  sc.place target = .ok (.attr ref) ∧
    ∃ o, value.object py (fr.object sc s.outputs) = .ok o ∧ o.wrap = .ok (.retrieve ref)

/-- An assignment that is ignored concerns an attribute that is assigned again, or that is last
anyway among those that are not. -/
def Block.IgnoresLast : Block Block.Activity → Frame → Records → Prop
  | done, _, _ => True
  | assign target value rest, fr, s =>
    (∀ ref, Ignored py sc target value fr s ref → ref ∉ sc.attrRefs rest.stores →
      (s.recorded.filter (· ∉ sc.attrRefs rest.stores)).getLast? = some ref) ∧
    ∀ fr' s', traceAssign py sc target value fr s = (.ok fr', s') → rest.IgnoresLast fr' s'
  | ifelse activity test body orelse rest, fr, s =>
    ∀ fr' s', traceIfelse py sc activity test body.stores orelse.stores (body.trace py sc)
      (orelse.trace py sc) fr s = (.ok fr', s') → rest.IgnoresLast fr' s'

/-- No assignment that matters for the order is ignored. -/
def ConvertFn.IgnoresLast (fn : ConvertFn) : Prop :=
  fn.body.analyzeActivity.IgnoresLast py fn.scope frame records

variable {py sc}

/-! ## Attributes of symbols -/

namespace Scope

theorem attrRef?_eq_some_iff {symbol : Symbol} {ref : AttributeRef} :
    sc.attrRef? symbol = some ref ↔
      ∃ e c a, symbol = .attr e c a ∧ sc.attrRef e c a = .ok ref := by
  cases symbol with
  | name id => simp [attrRef?]
  | attr e c a =>
    rw [attrRef?]
    cases href : sc.attrRef e c a with
    | error err => simp [href, Except.toOption]
    | ok ref' => simp [href, Except.toOption]

theorem mem_attrRefs {symbols : List Symbol} {ref : AttributeRef} : ref ∈ sc.attrRefs symbols ↔
    ∃ e c a, .attr e c a ∈ symbols ∧ sc.attrRef e c a = .ok ref := by
  simp only [attrRefs, List.mem_filterMap, attrRef?_eq_some_iff]
  constructor
  · rintro ⟨_, hm, e, c, a, rfl, href⟩
    exact ⟨e, c, a, hm, href⟩
  · rintro ⟨e, c, a, hm, href⟩
    exact ⟨_, hm, e, c, a, rfl, href⟩

theorem attrRefs_append (l l' : List Symbol) :
    sc.attrRefs (l ++ l') = sc.attrRefs l ++ sc.attrRefs l' :=
  List.filterMap_append

theorem attrRefs_name (id : String) (l : List Symbol) :
    sc.attrRefs (.name id :: l) = sc.attrRefs l := rfl

theorem attrRefs_attr {e c a : String} {ref : AttributeRef} (href : sc.attrRef e c a = .ok ref)
    (l : List Symbol) : sc.attrRefs (.attr e c a :: l) = ref :: sc.attrRefs l :=
  List.filterMap_cons_some (attrRef?_eq_some_iff.mpr ⟨e, c, a, rfl, href⟩)

theorem mem_attrRefs_congr {l l' : List Symbol} (h : ∀ symbol, symbol ∈ l ↔ symbol ∈ l')
    (ref : AttributeRef) : ref ∈ sc.attrRefs l ↔ ref ∈ sc.attrRefs l' := by
  simp only [mem_attrRefs, h]

theorem slash_notMem_of_attrRefs {symbols : List Symbol}
    (hslash : ∀ symbol ∈ symbols, symbol.SlashFree) {ref : AttributeRef}
    (href : ref ∈ sc.attrRefs symbols) : '/' ∉ ref.attributeName.toList := by
  obtain ⟨e, c, a, hm, href⟩ := mem_attrRefs.mp href
  rw [attributeName_of_attrRef href]
  exact hslash _ hm

end Scope

/-! ## What is recorded -/

namespace Records

theorem recorded_congr {s s' : Records} (h : s'.outputs = s.outputs) :
    s'.recorded = s.recorded := by
  rw [recorded, h, recorded]

theorem recorded_eq (s : Records) :
    s.recorded = (s.outputs.cell 0).entries.map fun e => e.2.mutateAttr := by
  rw [recorded, OrderedDict.values, List.map_map]
  rfl

/-- The keys of the outputs are those of the recorded attributes. -/
theorem Keyed.of_mem {s : Records} (hs : s.Keyed) {e : String × Mutate}
    (he : e ∈ (s.outputs.cell 0).entries) :
    e.1 = toStrAttr e.2.mutateAttr ∧ '/' ∉ e.2.mutateAttr.attributeName.toList :=
  hs 0 e.1 e.2 (OrderedDict.get?_eq_some_iff.mpr he)

theorem Keyed.nodup_recorded {s : Records} (hs : s.Keyed) : s.recorded.Nodup := by
  refine List.Nodup.of_map toStrAttr ?_
  have hkeys : s.recorded.map toStrAttr = (s.outputs.cell 0).keys := by
    rw [recorded_eq, List.map_map, OrderedDict.keys]
    exact List.map_congr_left fun e he => (hs.of_mem he).1.symm
  rw [hkeys]
  exact OrderedDict.nodup_keys _

/-- A selection of the recorded attributes is one of the entries. -/
theorem Keyed.filter_recorded {s : Records} (hs : s.Keyed) {p : AttributeRef → Bool}
    {q : String → Bool} (h : ∀ ref, '/' ∉ ref.attributeName.toList → p ref = q (toStrAttr ref)) :
    s.recorded.filter p =
      ((s.outputs.cell 0).restrict q).entries.map fun e => e.2.mutateAttr := by
  rw [recorded_eq, List.filter_map, OrderedDict.restrict]
  congr 1
  refine List.filter_congr fun e he => ?_
  obtain ⟨hkey, hslash⟩ := hs.of_mem he
  rw [Function.comp_apply, h _ hslash, ← hkey]

end Records

/-- **Other attributes keep their order.** -/
theorem Framed.filter_recorded {targets : List Symbol} {fr fr' : Frame} {s s' : Records}
    (h : Framed sc targets fr fr' s s') (hnext : 0 < s.outputs.next) (hs : s.Keyed)
    (hs' : s'.Keyed) (hslash : ∀ symbol ∈ targets, symbol.SlashFree) :
    s'.recorded.filter (· ∉ sc.attrRefs targets) =
      s.recorded.filter (· ∉ sc.attrRefs targets) := by
  have hsame : ∀ ref, '/' ∉ ref.attributeName.toList → decide (ref ∉ sc.attrRefs targets) =
      decide (toStrAttr ref ∉ (sc.attrRefs targets).map toStrAttr) := by
    intro ref href
    refine decide_eq_decide.mpr (not_congr ⟨fun hm => List.mem_map_of_mem hm, fun hm => ?_⟩)
    obtain ⟨ref', hm', hkey⟩ := List.mem_map.mp hm
    have hslash' := Scope.slash_notMem_of_attrRefs hslash hm'
    exact toStrAttr_injective hslash' href hkey ▸ hm'
  rw [hs'.filter_recorded (q := fun key => key ∉ (sc.attrRefs targets).map toStrAttr) hsame,
    hs.filter_recorded (q := fun key => key ∉ (sc.attrRefs targets).map toStrAttr) hsame,
    h.restrict 0 hnext]
  intro key hkey e c a ref hm _ href heq
  refine of_decide_eq_true hkey (heq ▸ List.mem_map_of_mem ?_)
  exact Scope.mem_attrRefs.mpr ⟨e, c, a, hm, href⟩

/-! ## Assignments -/

/-- An assignment moves the attribute to the end, unless it is ignored. -/
theorem recorded_store_attr {fr fr' : Frame} {e c a : String} {o : Object} {ref : AttributeRef}
    {n : Node} {s s' : Records} (hcell : ∀ v, fr.outputs v = 0) (hs : s.Keyed)
    (hslash : '/' ∉ a.toList) (href : sc.attrRef e c a = .ok ref) (hn : o.wrap = .ok n)
    (h : fr.store sc o (.attr e c a) s = (.ok fr', s')) :
    s'.recorded =
      if n = .retrieve ref then s.recorded else (s.recorded ++ [ref]).dedup := by
  obtain ⟨ref', n', href', hn', -, hout⟩ := Frame.store_attr h
  rw [href] at href'
  rw [hn] at hn'
  cases href'
  cases hn'
  rw [hcell] at hout
  split_ifs with hself
  · rw [hself, Recorder.setAttr_self, Heap.set_cell] at hout
    exact Records.recorded_congr hout
  · have herase : s.recorded.filter (· ≠ ref) =
        ((s.outputs.cell 0).erase (toStrAttr ref)).entries.map fun e => e.2.mutateAttr := by
      refine hs.filter_recorded (q := (· ≠ toStrAttr ref)) fun ref' hslash' => ?_
      rw [← Scope.attributeName_of_attrRef href] at hslash
      exact decide_eq_decide.mpr
        (not_congr ⟨fun heq => heq ▸ rfl, fun heq => toStrAttr_injective hslash' hslash heq⟩)
    rw [Records.recorded_eq s', hout, Heap.cell_set_self, Recorder.entries_setAttr hself,
      List.map_append, ← herase, dedup_append_singleton hs.nodup_recorded]
    rfl

/-- The switches behind an if statement are all recorded. -/
theorem recorded_storeAll {fr fr' : Frame} {bindings : List (Symbol × Object)} {s s' : Records}
    (hcell : ∀ v, fr.outputs v = 0) (hs : s.Keyed) (hslash : ∀ b ∈ bindings, b.1.SlashFree)
    (hswitch : ∀ b ∈ bindings, ∃ c x y, b.2 = .graphNode (.switch c x y))
    (h : fr.storeAll sc bindings s = (.ok fr', s')) :
    s'.recorded = (s.recorded ++ sc.attrRefs (bindings.map Prod.fst)).dedup := by
  induction bindings generalizing fr s with
  | nil =>
    cases h
    rw [List.map_nil, Scope.attrRefs, List.filterMap_nil, List.append_nil, hs.nodup_recorded.dedup]
  | cons b bindings ih =>
    obtain ⟨fr₁, s₁, hstore, h⟩ := Fallible.bind_eq_ok_iff.mp h
    have hs₁ : s₁.Keyed := (Frame.store_keyed (hslash b (by simp))).run hs hstore
    have hcell₁ : ∀ v, fr₁.outputs v = 0 := by
      rw [(framed_store hstore).outputs]
      exact hcell
    have hrest := ih hcell₁ hs₁ (fun b' hb' => hslash b' (by simp [hb']))
      (fun b' hb' => hswitch b' (by simp [hb'])) h
    obtain ⟨target, o⟩ := b
    cases target with
    | name id =>
      obtain ⟨-, rfl⟩ := Frame.store_name hstore
      exact hrest
    | attr e c a =>
      obtain ⟨ref, -, href, -, -, -⟩ := Frame.store_attr hstore
      obtain ⟨d, x, y, rfl⟩ := hswitch _ (List.mem_cons_self ..)
      have hfirst := recorded_store_attr hcell hs (hslash _ (List.mem_cons_self ..)) href rfl hstore
      rw [if_neg (by simp)] at hfirst
      rw [hrest, hfirst, dedup_dedup_append, List.append_assoc, List.map_cons,
        Scope.attrRefs_attr href, List.singleton_append]

/-! ## If statements -/

section
variable {fr fr' : Frame} {s s' : Records}

/-- The call of a branch keeps the order of the attributes that it does not assign. -/
theorem filter_recorded_call {activity : Block.Activity} {block : Block Block.Activity}
    {targets : List Symbol} {os : List Object} (hblock : block.ReturnsStores)
    (hslash : ∀ symbol ∈ targets, symbol.SlashFree) (hsub : block.stores ⊆ targets)
    (hused : ∀ v, fr.outputs v < s.outputs.next) (hs : s.Keyed)
    (h : fr.call sc activity block.stores (block.trace py sc) s = (.ok os, s')) :
    s'.Keyed ∧ (∀ v, fr.outputs v < s'.outputs.next) ∧
      s'.recorded.filter (· ∉ sc.attrRefs targets) =
        s.recorded.filter (· ∉ sc.attrRefs targets) := by
  have hs' : s'.Keyed := (Frame.call_keyed fun fr' =>
    block.trace_keyed hblock (fun symbol hm => hslash symbol (hsub hm)) fr').run hs h
  have hframed := (framed_call (fun _ _ _ _ hu ht => block.framed_trace hblock hu ht)
    hused h).mono fun symbol hm => hsub (List.mem_of_mem_filter hm)
  exact ⟨hs', hframed.used hused,
    hframed.filter_recorded ((Nat.zero_le _).trans_lt (hused "")) hs hs' hslash⟩

/-- What `switch` returns is recorded for any attribute. -/
theorem Plotter.exists_of_switch {condition true_ false_ o : Object}
    (h : switch condition true_ false_ = .ok o) : ∃ c x y, o = .graphNode (.switch c x y) := by
  obtain ⟨c, -, h⟩ := Fallible.result_bind_eq_ok_iff.mp h
  obtain ⟨x, -, h⟩ := Fallible.result_bind_eq_ok_iff.mp h
  obtain ⟨y, -, h⟩ := Fallible.result_bind_eq_ok_iff.mp h
  cases h
  exact ⟨c, x, y, rfl⟩

/-- **An if statement** moves what it returns to the end, in the order in which it is returned. -/
theorem recorded_traceIfelse {activity : Block.Activity} {test : Expr Symbol}
    {body orelse : Block Block.Activity} (hbody : body.ReturnsStores)
    (horelse : orelse.ReturnsStores)
    (hreturns : ∀ symbol, symbol ∈ activity.returns ↔ symbol ∈ body.stores ∨ symbol ∈ orelse.stores)
    (hslash : ∀ symbol ∈ activity.returns, symbol.SlashFree) (hcell : ∀ v, fr.outputs v = 0)
    (hnext : 0 < s.outputs.next) (hs : s.Keyed)
    (h : traceIfelse py sc activity test body.stores orelse.stores (body.trace py sc)
      (orelse.trace py sc) fr s = (.ok fr', s')) :
    s'.recorded = (s.recorded ++ sc.attrRefs activity.returns).dedup := by
  obtain ⟨condition, s₀, ifOutputs, s₁, elseOutputs, s₂, outputs, htest, hif, helse, hswitch,
    hstore⟩ := traceIfelse_eq_ok h
  have htest' := (Frame.trace_eq_ok htest).2
  have hs₀ : s₀.Keyed := (Frame.trace_keyed test).run hs htest
  have hused₀ : ∀ v, fr.outputs v < s₀.outputs.next := by
    intro v
    rw [hcell, htest']
    exact hnext
  obtain ⟨hs₁, hused₁, hfilter₁⟩ := filter_recorded_call hbody hslash
    (fun symbol hm => (hreturns symbol).mpr (.inl hm)) hused₀ hs₀ hif
  obtain ⟨hs₂, -, hfilter₂⟩ := filter_recorded_call horelse hslash
    (fun symbol hm => (hreturns symbol).mpr (.inr hm)) hused₁ hs₁ helse
  obtain ⟨_, _, _, _, -, -, hos, -⟩ := call_eq_ok hif
  obtain ⟨_, _, _, _, -, -, hos', -⟩ := call_eq_ok helse
  have houtputs := switchOutputs_eq_ok hos hos' hswitch
  have hfst : (activity.returns.zip outputs).map Prod.fst = activity.returns :=
    List.map_fst_zip houtputs.length_eq.le
  have hnodes : ∀ b ∈ activity.returns.zip outputs,
      ∃ c x y, b.2 = .graphNode (.switch c x y) := by
    intro b hb
    obtain ⟨_, _, -, -, ho⟩ := List.forall₂_iff_zip.mp houtputs |>.2 hb
    exact Plotter.exists_of_switch ho
  have hstored := recorded_storeAll hcell hs₂ (fun b hb => hslash b.1 (List.of_mem_zip hb).1)
    hnodes hstore
  rw [hstored, hfst, dedup_append, hfilter₂, hfilter₁, ← dedup_append,
    Records.recorded_congr htest']

end

/-! ## Steps -/

section
variable {fr fr' : Frame} {s s' : Records}

theorem keyed_traceAssign {target : Symbol} {value : Expr Symbol} (hslash : target.SlashFree)
    (hs : s.Keyed) (h : traceAssign py sc target value fr s = (.ok fr', s')) : s'.Keyed := by
  obtain ⟨o, s₀, htrace, hstore⟩ := Fallible.bind_eq_ok_iff.mp h
  exact (Frame.store_keyed hslash).run ((Frame.trace_keyed value).run hs htrace) hstore

/-- What is ignored is decided by the node of the value. -/
theorem ignored_iff {e c a : String} {value : Expr Symbol} {ref : AttributeRef} {o : Object}
    {n : Node} (href : sc.attrRef e c a = .ok ref)
    (ho : value.object py (fr.object sc s.outputs) = .ok o) (hn : o.wrap = .ok n)
    {ref' : AttributeRef} :
    Ignored py sc (.attr e c a) value fr s ref' ↔ ref' = ref ∧ n = .retrieve ref := by
  constructor
  · rintro ⟨hplace, o', ho', hn'⟩
    obtain ⟨ref'', href', hattr⟩ := Scope.place_attr_iff.mp hplace
    rw [href] at href'
    rw [ho] at ho'
    cases href'
    cases ho'
    cases hattr
    rw [hn] at hn'
    cases hn'
    exact ⟨rfl, rfl⟩
  · rintro ⟨rfl, rfl⟩
    exact ⟨Scope.place_attr_iff.mpr ⟨ref', href, rfl⟩, o, ho, hn⟩

/-- **One assignment.** `order` has the attributes that `rest` does not assign as they are after
the assignment. It is the one of the source if it is so from there on, and if the assignment was
not missed. -/
theorem eq_recorded_traceAssign_iff {target : Symbol} {value : Expr Symbol} {rest : List Symbol}
    {order : List AttributeRef} (hslash : target.SlashFree) (hcell : ∀ v, fr.outputs v = 0)
    (hs : s.Keyed) (h : traceAssign py sc target value fr s = (.ok fr', s'))
    (horder : order.filter (· ∉ sc.attrRefs rest) = s'.recorded.filter (· ∉ sc.attrRefs rest)) :
    order = (s.recorded ++ sc.attrRefs (target :: rest)).dedup ↔
      (∀ ref, Ignored py sc target value fr s ref → ref ∉ sc.attrRefs rest →
        (s.recorded.filter (· ∉ sc.attrRefs rest)).getLast? = some ref) ∧
      order = (s'.recorded ++ sc.attrRefs rest).dedup := by
  obtain ⟨o, s₀, htrace, hstore⟩ := Fallible.bind_eq_ok_iff.mp h
  obtain ⟨ho, hs₀⟩ := Frame.trace_eq_ok htrace
  have hs₀' : s₀.Keyed := (Frame.trace_keyed value).run hs htrace
  have hrecorded := Records.recorded_congr hs₀
  cases target with
  | name id =>
    obtain ⟨-, rfl⟩ := Frame.store_name hstore
    rw [Scope.attrRefs_name, hrecorded]
    exact (and_iff_right fun ref hignored _ => by cases hignored.1).symm
  | attr e c a =>
    obtain ⟨ref, n, href, hn, -, -⟩ := Frame.store_attr hstore
    have hstored := recorded_store_attr hcell hs₀' hslash href hn hstore
    rw [hrecorded] at hstored
    rw [Scope.attrRefs_attr href]
    simp only [ignored_iff href ho hn]
    by_cases hself : n = .retrieve ref
    · -- nothing was recorded, so the assignment must not show
      rw [if_pos hself] at hstored
      have hdedup : order.filter (· ∉ sc.attrRefs rest) =
          (s.recorded.filter (· ∉ sc.attrRefs rest)).dedup := by
        rw [horder, hstored, (hs.nodup_recorded.filter _).dedup]
      rw [← List.singleton_append, ← List.append_assoc, eq_dedup_append_iff hdedup,
        filter_append_singleton_dedup_iff hs.nodup_recorded, hstored]
      simp only [hself, and_true, forall_eq]
    · rw [if_neg hself] at hstored
      rw [hstored, dedup_dedup_append, List.append_assoc, List.singleton_append]
      exact (and_iff_right fun ref' h _ => absurd h.2 hself).symm

/-- **One if statement.** What it returns must show in the order of the source. -/
theorem eq_recorded_traceIfelse_iff {activity : Block.Activity} {test : Expr Symbol}
    {body orelse : Block Block.Activity} {rest : List Symbol} {order : List AttributeRef}
    (hbody : body.ReturnsStores) (horelse : orelse.ReturnsStores)
    (hreturns : ∀ symbol, symbol ∈ activity.returns ↔ symbol ∈ body.stores ∨ symbol ∈ orelse.stores)
    (hslash : ∀ symbol ∈ activity.returns, symbol.SlashFree) (hcell : ∀ v, fr.outputs v = 0)
    (hnext : 0 < s.outputs.next) (hs : s.Keyed)
    (h : traceIfelse py sc activity test body.stores orelse.stores (body.trace py sc)
      (orelse.trace py sc) fr s = (.ok fr', s'))
    (horder : order.filter (· ∉ sc.attrRefs rest) = s'.recorded.filter (· ∉ sc.attrRefs rest)) :
    order = (s.recorded ++ sc.attrRefs (body.stores ++ orelse.stores ++ rest)).dedup ↔
      (∀ a b, a ∉ sc.attrRefs rest → b ∉ sc.attrRefs rest →
        LastBefore (sc.attrRefs (body.stores ++ orelse.stores)) a b →
          LastBefore (sc.attrRefs activity.returns) a b) ∧
      order = (s'.recorded ++ sc.attrRefs rest).dedup := by
  have hstored := recorded_traceIfelse hbody horelse hreturns hslash hcell hnext hs h
  have hmem : ∀ ref, ref ∈ sc.attrRefs activity.returns ↔
      ref ∈ sc.attrRefs (body.stores ++ orelse.stores) :=
    Scope.mem_attrRefs_congr fun symbol => (hreturns symbol).trans List.mem_append.symm
  have hdedup : order.filter (· ∉ sc.attrRefs rest) =
      ((s.recorded ++ sc.attrRefs activity.returns).filter (· ∉ sc.attrRefs rest)).dedup := by
    rw [horder, hstored, filter_dedup]
  rw [Scope.attrRefs_append, ← List.append_assoc, eq_dedup_append_iff hdedup,
    filter_append_dedup_iff hmem, hstored, dedup_dedup_append]

end

/-! ## Functions -/

namespace Block

/-- A traced block keeps the order of the attributes that it does not assign. -/
theorem filter_recorded_trace {b : Block Activity} (hb : b.ReturnsStores)
    (hslash : ∀ symbol ∈ b.stores, symbol.SlashFree) {fr fr' : Frame} {s s' : Records}
    (hcell : ∀ v, fr.outputs v = 0) (hnext : 0 < s.outputs.next) (hs : s.Keyed)
    (h : b.trace py sc fr s = (.ok fr', s')) :
    s'.recorded.filter (· ∉ sc.attrRefs b.stores) =
      s.recorded.filter (· ∉ sc.attrRefs b.stores) := by
  have hused : ∀ v, fr.outputs v < s.outputs.next := by
    intro v
    rwa [hcell]
  exact (b.framed_trace hb hused h).filter_recorded hnext hs ((b.trace_keyed hb hslash fr).run hs h)
    hslash

/-- An if statement is a block by itself. -/
theorem framed_traceIfelse {activity : Activity} {test : Expr Symbol} {body orelse : Block Activity}
    (hb : (ifelse activity test body orelse done).ReturnsStores)
    (hslash : ∀ symbol ∈ (ifelse activity test body orelse done).stores, symbol.SlashFree)
    {fr fr' : Frame} {s s' : Records} (hused : ∀ v, fr.outputs v < s.outputs.next) (hs : s.Keyed)
    (h : traceIfelse py sc activity test body.stores orelse.stores (body.trace py sc)
      (orelse.trace py sc) fr s = (.ok fr', s')) :
    fr'.outputs = fr.outputs ∧ s.outputs.next ≤ s'.outputs.next ∧ s'.Keyed := by
  have halone : (ifelse activity test body orelse done).trace py sc fr s = (.ok fr', s') :=
    Fallible.bind_eq_ok_iff.mpr ⟨fr', s', h, rfl⟩
  have hframed := framed_trace hb hused halone
  exact ⟨hframed.outputs, hframed.next, (trace_keyed hb hslash fr).run hs halone⟩

/-- **The order of a block**: what it records is in the order of its last assignments exactly when
its if statements keep the order and what is ignored does not matter for it. -/
theorem recorded_trace_iff {α : Type} {b : Block α} {all defined : List Symbol}
    (hslash : ∀ symbol ∈ b.stores, symbol.SlashFree) {fr fr' : Frame} {s s' : Records}
    (hcell : ∀ v, fr.outputs v = 0) (hnext : 0 < s.outputs.next) (hs : s.Keyed)
    (h : (b.annotate all defined).trace py sc fr s = (.ok fr', s')) :
    s'.recorded = (s.recorded ++ sc.attrRefs b.stores).dedup ↔
      b.KeepsOrder sc ∧ (b.annotate all defined).IgnoresLast py sc fr s := by
  induction b generalizing defined fr s with
  | done =>
    cases h
    refine iff_of_true ?_ ⟨trivial, trivial⟩
    rw [Block.stores, Scope.attrRefs, List.filterMap_nil, List.append_nil, hs.nodup_recorded.dedup]
  | assign target value rest ih =>
    obtain ⟨fr₁, s₁, hassign, h⟩ := Fallible.bind_eq_ok_iff.mp h
    have hframed := framed_traceAssign hassign
    have hslash' : ∀ symbol ∈ rest.stores, symbol.SlashFree :=
      fun symbol hm => hslash symbol (List.mem_cons_of_mem _ hm)
    have htarget : target.SlashFree := hslash target (List.mem_cons_self ..)
    have hcell₁ : ∀ v, fr₁.outputs v = 0 := by rwa [hframed.outputs]
    have hnext₁ := hnext.trans_le hframed.next
    have hs₁ := keyed_traceAssign htarget hs hassign
    have horder := filter_recorded_trace (returnsStores_annotate _ _ _)
      (by rwa [stores_annotate]) hcell₁ hnext₁ hs₁ h
    rw [stores_annotate] at horder
    rw [KeepsOrder, annotate, IgnoresLast, Fallible.forall_eq_ok_iff hassign, stores_annotate,
      and_left_comm, ← ih hslash' hcell₁ hnext₁ hs₁ h, stores]
    exact eq_recorded_traceAssign_iff htarget hcell hs hassign horder
  | ifelse a test body orelse rest ihbody ihorelse ihrest =>
    obtain ⟨hreturns, hbody, horelse, hrest⟩ :=
      returnsStores_annotate all defined (ifelse a test body orelse rest)
    obtain ⟨fr₁, s₁, hifelse, h⟩ := Fallible.bind_eq_ok_iff.mp h
    have hbranches : ∀ symbol, symbol ∈ body.stores ∨ symbol ∈ orelse.stores →
        symbol.SlashFree := fun symbol hm => hslash symbol (by simp [stores, or_assoc.symm, hm])
    have hslash' : ∀ symbol ∈ rest.stores, symbol.SlashFree :=
      fun symbol hm => hslash symbol (by simp [stores, hm])
    have hused : ∀ v, fr.outputs v < s.outputs.next := by
      intro v
      rwa [hcell]
    obtain ⟨houtputs, hnext', hs₁⟩ := framed_traceIfelse ⟨hreturns, hbody, horelse, trivial⟩
      (by simpa [stores, or_imp] using hbranches) hused hs hifelse
    have hcell₁ : ∀ v, fr₁.outputs v = 0 := by rwa [houtputs]
    have hnext₁ := hnext.trans_le hnext'
    have horder := filter_recorded_trace hrest (by rwa [stores_annotate]) hcell₁ hnext₁ hs₁ h
    have hinside : (activity all defined (ifelse a test body orelse done)).returns =
        (insideOut body orelse).eraseDups := by
      simp [activity, outputSyms, insideOut]
    have hstep := eq_recorded_traceIfelse_iff hbody horelse hreturns
      (fun symbol hm => hbranches symbol (by simpa using (hreturns symbol).mp hm)) hcell hnext hs
      hifelse horder
    rw [hinside] at hstep
    simp only [stores_annotate] at hstep
    rw [KeepsOrder, annotate, IgnoresLast, Fallible.forall_eq_ok_iff hifelse, and_assoc,
      ← ihrest hslash' hcell₁ hnext₁ hs₁ h, stores, ← List.append_assoc]
    exact hstep

end Block

namespace ConvertFn

/-- **Outputs follow program order** exactly when the if statements keep the order and no
assignment that matters for it is ignored. -/
theorem ordered_iff {fn : ConvertFn} {r : Recorder} (hcompile : fn.compile py = .ok r) :
    fn.Ordered r.graph ↔ fn.body.KeepsOrder fn.scope ∧ fn.IgnoresLast py := by
  rw [compile] at hcompile
  rcases htrace : fn.body.analyzeActivity.trace py fn.scope frame records with ⟨e | fr, s⟩
  · rw [htrace] at hcompile; cases hcompile
  rw [htrace] at hcompile
  cases hcompile
  have hiff := Block.recorded_trace_iff
    (fun symbol hm => fn.slashFree symbol (fn.body.stores_subset_symbols hm))
    (fun _ => rfl) Nat.zero_lt_one records_keyed htrace
  rw [IgnoresLast, Block.analyzeActivity, ← hiff]
  refine Iff.trans ⟨fun h => ?_, fun h => ?_⟩ eq_dedup_iff.symm
  · exact ⟨h.once, h.assigned, h.ordered⟩
  · exact ⟨h.1, h.2.1, h.2.2⟩

/-! ### Two coordinates -/

/-- `car["Velocity"].x = …; car["Velocity"].y = …` -/
def moveTo (x y : ℤ) : Block Unit :=
  .assign (.attr "car" "Velocity" "x") (.const (.int x))
    (.assign (.attr "car" "Velocity" "y") (.const (.int y)) .done)

/-- An assignment, and an if statement whose branches assign `x` and then `y`. -/
def steer : ConvertFn where
  scope := car
  body := .assign (.attr "car" "Velocity" "y") (.const (.int 0))
    (.ifelse () (.leaf (.attr "car" "Action" "left")) (moveTo 1 2) (moveTo 3 4) .done)
  slashFree := by simp [moveTo, Block.symbols, Expr.leaves, Symbol.SlashFree]
  locals := by simp [moveTo, Block.symbols, Expr.leaves]

/-- The first branch assigns `y` in a nested if statement. -/
def steerNested : ConvertFn where
  scope := car
  body := .ifelse () (.leaf (.attr "car" "Action" "left"))
    (.assign (.attr "car" "Velocity" "x") (.const (.int 1))
      (.ifelse () (.leaf (.attr "car" "Action" "fast"))
        (.assign (.attr "car" "Velocity" "y") (.const (.int 5)) .done)
        (.assign (.attr "car" "Velocity" "y") (.const (.int 2)) .done) .done))
    (moveTo 3 4) .done
  slashFree := by simp [moveTo, Block.symbols, Expr.leaves, Symbol.SlashFree]
  locals := by simp [moveTo, Block.symbols, Expr.leaves]

theorem ordered_iff_steer : ∃ r, steer.compile default = .ok r ∧ steer.Ordered r.graph := by
  have hok : (steer.compile default).toOption.isSome := by decide +kernel
  cases hcompile : steer.compile default with
  | error e => rw [hcompile] at hok; cases hok
  | ok r =>
    have hkeeps : steer.body.KeepsOrder steer.scope := by
      refine ⟨fun a b _ _ => ?_, trivial⟩
      exact (dedup_eq_dedup_iff fun ref => Scope.mem_attrRefs_congr
        (fun symbol => by simp [moveTo, Block.insideOut, Block.outputSyms, Block.ownStores,
          Block.stores]) ref).mp (by decide +kernel) a b
    have hignores : steer.IgnoresLast default := by
      refine ⟨fun ref hignored => ?_, fun _ _ _ _ _ _ => trivial⟩
      obtain ⟨-, o, ho, hretrieve⟩ := hignored
      cases ho
      cases hretrieve
    exact ⟨r, rfl, (ordered_iff hcompile).mpr ⟨hkeeps, hignores⟩⟩

/-- In both branches `x` is assigned before `y`, but `y` is the first of the outputs. -/
theorem steerNested_reordered : ¬ ∀ (py : Python) (fn : ConvertFn) (r : Recorder),
    (∀ symbol ∈ fn.body.stores, ∃ e c a, symbol = .attr e c a) → fn.body.NoSelf →
    fn.compile py = .ok r → fn.Ordered r.graph := by
  intro h
  have houtputs : (steerNested.compile default).toOption.map
      (fun r => r.graph.outputs.map Mutate.mutateAttr) =
        some [⟨1, "Velocity", "y"⟩, ⟨1, "Velocity", "x"⟩] := by decide +kernel
  cases hcompile : steerNested.compile default with
  | error e => rw [hcompile] at houtputs; cases houtputs
  | ok r =>
    have hordered := (h default steerNested r (by simp [steerNested, moveTo, Block.stores])
      (by simp [steerNested, moveTo, Block.NoSelf]) hcompile).ordered
    rw [hcompile] at houtputs
    have hyx : r.graph.outputs.map Mutate.mutateAttr = _ := Option.some.inj houtputs
    rw [hyx] at hordered
    exact absurd ((List.pairwise_cons.mp hordered).1 _ (.head _)) (by decide +kernel)

end ConvertFn
end Bentobox.Sdk
