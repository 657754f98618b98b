import Bentobox.Sdk.Definitions

/-!
# Assigned and pushed values

What the targets of an assignment are assigned, next to the values that `resolve_symbol` pushes
for them. It has every symbol once and takes the values from the front.
-/
namespace Bentobox.Sdk.Reaching

/-- The definitions that are complete, the latest one first. -/
abbrev Env := List (String × NodeRef)

/-- What an assignment defines: every target of a chain has the value itself. -/
def Targets.assigned (n : ℕ) : Targets → Env
  | chain target targets _ =>
    ((target :: targets).filterMap Target.symbol).map fun symbol => (symbol, .stmt n 0)
  | unpack targets =>
    ((targets.zip (Targets.values n (.unpack targets))).filterMap fun p =>
      p.1.symbol.map fun symbol => (symbol, p.2)).reverse

/-- The symbols that an assignment binds, with whether the definition that is pushed is the right
one: in a chain that of the first target, if the value has no elements; else that of a symbol which
occurs once, with no symbol repeated before. -/
def Targets.bindings : Targets → List (String × Bool)
  | .chain target targets elts => (symbols (.chain target targets elts)).map fun symbol =>
    (symbol, elts.isNone && target.symbol = some symbol)
  | .unpack targets => (symbols (.unpack targets)).map fun symbol =>
    (symbol, (symbols (.unpack targets)).count symbol = 1 &&
      decide ((symbols (.unpack targets)).takeWhile (· ≠ symbol)).Nodup)

/-! ## Values by position -/

theorem lookup_map_self {β : Type} (f : String → β) (symbols : List String) (s : String) :
    (symbols.map fun symbol => (symbol, f symbol)).lookup s =
      if s ∈ symbols then some (f s) else none := by
  induction symbols with
  | nil => rfl
  | cons symbol symbols ih =>
    rw [List.map_cons, List.lookup_cons, ih]
    by_cases hs : s = symbol
    · subst hs
      simp
    · simp [hs, beq_false_of_ne hs]

theorem length_eraseDups_le (l : List String) : l.eraseDups.length ≤ l.length := by
  induction hlen : l.length using Nat.strongRecOn generalizing l with
  | ind k ih =>
    cases l with
    | nil => exact Nat.zero_le k
    | cons a l =>
      have hfilter := List.length_filter_le (fun b => !b == a) l
      have := ih _ (by rw [← hlen, List.length_cons]; omega) (l.filter fun b => !b == a) rfl
      rw [List.eraseDups_cons, List.length_cons, ← hlen, List.length_cons]
      omega

theorem nodup_iff_length_eraseDups (l : List String) :
    l.Nodup ↔ l.eraseDups.length = l.length := by
  induction l with
  | nil => exact iff_of_true .nil rfl
  | cons a l ih =>
    have hfilter := List.length_filter_le (fun b => !b == a) l
    have hle := length_eraseDups_le (l.filter fun b => !b == a)
    rw [List.nodup_cons, List.eraseDups_cons, List.length_cons, List.length_cons]
    by_cases ha : a ∈ l
    · have hlt : (l.filter fun b => !b == a).length < l.length :=
        List.length_filter_lt_length_iff_exists.mpr ⟨a, ha, by simp⟩
      exact iff_of_false (fun h => h.1 ha) (by omega)
    · have heq : (l.filter fun b => !b == a) = l := by
        rw [List.filter_eq_self]
        intro b hb
        simpa using fun h : b = a => ha (h ▸ hb)
      rw [heq, ih]
      simp [ha]

/-- Where a symbol stands among the symbols without repetitions. -/
theorem eraseDups_eq_append {s : String} {before : List String} (h : s ∉ before)
    (after : List String) :
    ∃ later, (before ++ s :: after).eraseDups = before.eraseDups ++ s :: later ∧ s ∉ later := by
  have heq : (before ++ s :: after).eraseDups =
      before.eraseDups ++ s :: ((after.removeAll before).filter fun b => !b == s).eraseDups := by
    rw [List.eraseDups_append, List.removeAll, List.filter_cons_of_pos (by simpa using h),
      List.eraseDups_cons]
    rfl
  refine ⟨_, heq, ?_⟩
  rw [List.mem_eraseDups, List.mem_filter]
  simp

/-- What a symbol that occurs once is zipped with. -/
theorem filter_zip {s : String} {before after : List String} {ms : List NodeRef}
    (hbefore : s ∉ before) (hafter : s ∉ after) (hlen : before.length < ms.length) :
    ((before ++ s :: after).zip ms).filter (fun d => d.1 = s) = [(s, ms[before.length])] := by
  induction before generalizing ms with
  | nil =>
    cases ms with
    | nil => cases hlen
    | cons m ms =>
      have hnil : ((after.zip ms).filter fun d => d.1 = s) = [] := by
        rw [List.filter_eq_nil_iff]
        intro d hd heq
        exact hafter ((decide_eq_true_eq.mp heq) ▸ (List.of_mem_zip (a := d.1) (b := d.2) hd).1)
      rw [List.nil_append, List.zip_cons_cons, List.filter_cons_of_pos (by simp), hnil]
      rfl
  | cons a before ih =>
    cases ms with
    | nil => cases hlen
    | cons m ms =>
      rw [List.mem_cons, not_or] at hbefore
      rw [List.cons_append, List.zip_cons_cons,
        List.filter_cons_of_neg (by simpa using Ne.symm hbefore.1),
        ih hbefore.2 (Nat.lt_of_succ_lt_succ hlen)]
      rfl

/-- What the last of the symbols is zipped with. -/
theorem lookup_reverse_zip {s : String} {symbols : List String} {ms : List NodeRef}
    (h : s ∈ symbols) (hlen : symbols.length ≤ ms.length) :
    ∃ j, ∃ hj : j < symbols.length, symbols[j] = s ∧ s ∉ symbols.drop (j + 1) ∧
      (symbols.zip ms).reverse.lookup s = ms[j]? := by
  induction symbols generalizing ms with
  | nil => cases h
  | cons a symbols ih =>
    cases ms with
    | nil => cases hlen
    | cons m ms =>
      rw [List.zip_cons_cons, List.reverse_cons, List.lookup_append]
      by_cases hs : s ∈ symbols
      · obtain ⟨j, hj, hget, hdrop, hlookup⟩ := ih hs (Nat.le_of_succ_le_succ hlen)
        refine ⟨j + 1, Nat.succ_lt_succ hj, hget, hdrop, ?_⟩
        have hj' : j < ms.length := by
          have := Nat.le_of_succ_le_succ hlen
          omega
        rw [hlookup, List.getElem?_cons_succ, List.getElem?_eq_getElem hj']
        rfl
      · have ha : a = s := ((List.mem_cons.mp h).resolve_right hs).symm
        have hnone : (symbols.zip ms).reverse.lookup s = none := by
          rw [List.lookup_eq_none_iff]
          intro d hd
          rw [List.mem_reverse] at hd
          have := (List.of_mem_zip (a := d.1) (b := d.2) hd).1
          simpa using fun heq : s = d.1 => hs (heq ▸ this)
        refine ⟨0, Nat.succ_pos _, ha, hs, ?_⟩
        rw [hnone, ← ha]
        simp

/-- The nodes that an assignment pushes for a symbol. -/
def Targets.pushedFor (targets : Targets) (n : ℕ) (s : String) : List NodeRef :=
  ((zipValues targets.symbols (targets.values n)).filter fun d => d.1 = s).map Prod.snd

theorem stmt_inj {n i j : ℕ} (h : NodeRef.stmt n i = .stmt n j) : i = j := by
  cases h
  rfl

theorem getElem?_values (targets : List Target) (n j : ℕ) (hj : j < targets.length) :
    (Targets.values n (.unpack targets))[j]? = some (.stmt n (j + 1)) := by
  simp [Targets.values, hj]

theorem length_filterMap_symbol {targets : List Target} (h : ∀ t ∈ targets, t.symbol.isSome) :
    (targets.filterMap Target.symbol).length = targets.length := by
  induction targets with
  | nil => rfl
  | cons t targets ih =>
    obtain ⟨symbol, hsymbol⟩ := Option.isSome_iff_exists.mp (h t List.mem_cons_self)
    rw [List.filterMap_cons, hsymbol, List.length_cons, List.length_cons,
      ih fun t ht => h t (List.mem_cons_of_mem _ ht)]

theorem filterMap_zip_symbol {targets : List Target} (h : ∀ t ∈ targets, t.symbol.isSome)
    (ms : List NodeRef) :
    ((targets.zip ms).filterMap fun p => p.1.symbol.map fun symbol => (symbol, p.2)) =
      (targets.filterMap Target.symbol).zip ms := by
  induction targets generalizing ms with
  | nil => rfl
  | cons t targets ih =>
    obtain ⟨symbol, hsymbol⟩ := Option.isSome_iff_exists.mp (h t List.mem_cons_self)
    cases ms with
    | nil => simp
    | cons m ms =>
      simp only [List.zip_cons_cons, List.filterMap_cons, hsymbol, Option.map_some,
        ih fun t ht => h t (List.mem_cons_of_mem _ ht)]

theorem takeWhile_ne {s : String} {before : List String} (h : s ∉ before) (after : List String) :
    (before ++ s :: after).takeWhile (· ≠ s) = before := by
  rw [List.takeWhile_append_of_pos, List.takeWhile_cons_of_neg (by simp), List.append_nil]
  intro a ha
  simpa using fun heq : a = s => h (heq ▸ ha)

/-- The last place of a symbol is the first one exactly if it occurs once. -/
theorem last_eq_first_iff {s : String} {before after : List String} (hbefore : s ∉ before) {j : ℕ}
    (hj : j < (before ++ s :: after).length) (hget : (before ++ s :: after)[j] = s)
    (hdrop : s ∉ (before ++ s :: after).drop (j + 1)) :
    before.length ≤ j ∧ (j = before.length ↔ s ∉ after) := by
  have hle : before.length ≤ j := by
    by_contra hlt
    rw [List.getElem_append_left (by omega)] at hget
    exact hbefore (hget ▸ List.getElem_mem _)
  refine ⟨hle, ?_⟩
  constructor
  · rintro rfl
    rwa [List.drop_append, List.drop_of_length_le (by omega), Nat.add_sub_cancel_left] at hdrop
  · intro hafter
    by_contra hne
    obtain ⟨i, rfl⟩ : ∃ i, j = before.length + (i + 1) := ⟨j - before.length - 1, by omega⟩
    rw [List.getElem_append_right (by omega)] at hget
    simp only [Nat.add_sub_cancel_left, List.getElem_cons_succ] at hget
    exact hafter (hget ▸ List.getElem_mem _)

/-- Of several targets of a symbol the last one counts, but the value of the first one is pushed,
and it is taken from too far in front if there were repetitions before. -/
theorem pushedFor_unpack {targets : List Target} (h : ∀ t ∈ targets, t.symbol.isSome) {n : ℕ}
    {s : String} (hs : s ∈ (Targets.unpack targets).symbols) : ∃ b m,
      (Targets.unpack targets).bindings.lookup s = some b ∧
      ((Targets.unpack targets).assigned n).lookup s = some m ∧ m.Within n (n + 1) ∧
      (b = true ↔ ((Targets.unpack targets).pushedFor n s).getLast? = some m) := by
  have hlen : (Targets.unpack targets).symbols.length = targets.length := length_filterMap_symbol h
  have hvalues : (Targets.values n (.unpack targets)).length = targets.length := by
    simp [Targets.values]
  obtain ⟨j, hj, hget, hdrop, hlookup⟩ := @lookup_reverse_zip s _
    (Targets.values n (.unpack targets)) hs (by omega)
  rw [getElem?_values targets n j (by omega)] at hlookup
  have hbindings : (Targets.unpack targets).bindings.lookup s = _ :=
    (lookup_map_self _ _ s).trans (if_pos hs)
  refine ⟨_, .stmt n (j + 1), hbindings, ?_,
    ⟨n, j + 1, rfl, Nat.le_refl n, Nat.lt_succ_self n⟩, ?_⟩
  · rw [Targets.assigned, filterMap_zip_symbol h]
    exact hlookup
  · obtain ⟨before, after, heq, hbefore⟩ := List.eq_append_cons_of_mem hs
    obtain ⟨later, hdups, hlater⟩ := eraseDups_eq_append hbefore after
    have hle := length_eraseDups_le before
    have hlong : before.length < targets.length := by
      rw [← hlen, heq]
      simp
    have hpushed : (Targets.unpack targets).pushedFor n s =
        [.stmt n (before.eraseDups.length + 1)] := by
      have hfirst := getElem?_values targets n before.eraseDups.length (by omega)
      have hfit : before.eraseDups.length < (Targets.values n (.unpack targets)).length := by omega
      rw [List.getElem?_eq_getElem hfit] at hfirst
      rw [Targets.pushedFor, zipValues, heq, hdups,
        filter_zip (by rwa [List.mem_eraseDups]) hlater hfit, Option.some.inj hfirst]
      rfl
    rw [hpushed, List.getLast?_singleton, Bool.and_eq_true, decide_eq_true_eq, decide_eq_true_eq]
    simp only [heq] at hj hget hdrop ⊢
    obtain ⟨hle', hlast⟩ := last_eq_first_iff hbefore hj hget hdrop
    have hcount : (before ++ s :: after).count s = 1 ↔ s ∉ after := by
      rw [List.count_append, List.count_cons_self, List.count_eq_zero_of_not_mem hbefore,
        ← List.count_eq_zero]
      omega
    rw [hcount, takeWhile_ne hbefore, nodup_iff_length_eraseDups, ← hlast]
    constructor
    · rintro ⟨rfl, hlength⟩
      rw [hlength]
    · intro hsome
      have := stmt_inj (Option.some.inj hsome)
      omega

theorem mem_values_of_pushedFor {targets : Targets} {n : ℕ} {s : String} {m : NodeRef}
    (h : m ∈ targets.pushedFor n s) : m ∈ targets.values n := by
  obtain ⟨d, hd, rfl⟩ := List.mem_map.mp h
  exact (List.of_mem_zip (a := d.1) (b := d.2) (List.mem_of_mem_filter hd)).2

/-- In a chain the value itself is assigned, and it is pushed for the first target only. -/
theorem pushedFor_chain {target : Target} {targets : List Target} {elts : Option ℕ}
    (h : target.symbol.isSome) {n : ℕ} {s : String}
    (hs : s ∈ (Targets.chain target targets elts).symbols) : ∃ b m,
      (Targets.chain target targets elts).bindings.lookup s = some b ∧
      ((Targets.chain target targets elts).assigned n).lookup s = some m ∧ m.Within n (n + 1) ∧
      (b = true ↔ ((Targets.chain target targets elts).pushedFor n s).getLast? = some m) := by
  have hbindings : (Targets.chain target targets elts).bindings.lookup s = _ :=
    (lookup_map_self _ _ s).trans (if_pos hs)
  have hassigned : ((Targets.chain target targets elts).assigned n).lookup s = some (.stmt n 0) :=
    (lookup_map_self _ _ s).trans (if_pos hs)
  refine ⟨_, _, hbindings, hassigned, ⟨n, 0, rfl, Nat.le_refl n, Nat.lt_succ_self n⟩, ?_⟩
  cases elts with
  | none =>
    obtain ⟨symbol, hsymbol⟩ := Option.isSome_iff_exists.mp h
    have hpushed : (Targets.chain target targets none).pushedFor n s =
        if symbol = s then [.stmt n 0] else [] := by
      rw [Targets.pushedFor, zipValues, Targets.symbols, Targets.tgts, List.filterMap_cons, hsymbol,
        List.eraseDups_cons, Targets.values, List.zip_cons_cons, List.zip_nil_right,
        List.filter_cons]
      by_cases heq : symbol = s
      · simp [heq]
      · simp [heq]
    rw [hpushed, hsymbol]
    by_cases heq : symbol = s
    · simp [heq]
    · simp [heq]
  | some elts =>
    refine iff_of_false (fun hb => by cases hb) fun hlast => ?_
    obtain ⟨i, -, hi⟩ := List.mem_map.mp (mem_values_of_pushedFor (List.mem_of_getLast? hlast))
    exact Nat.succ_ne_zero i (stmt_inj hi)

/-- What is pushed for a target is right exactly if it is bound so. -/
theorem pushedFor_eq {targets : Targets} (h : ∀ t ∈ targets.tgts, t.symbol.isSome) {n : ℕ}
    {s : String} (hs : s ∈ targets.symbols) : ∃ b m, targets.bindings.lookup s = some b ∧
      (targets.assigned n).lookup s = some m ∧ m.Within n (n + 1) ∧
      (b = true ↔ (targets.pushedFor n s).getLast? = some m) := by
  cases targets with
  | chain target targets elts => exact pushedFor_chain (h target List.mem_cons_self) hs
  | unpack targets => exact pushedFor_unpack h hs

theorem lookup_bindings_eq_none {targets : Targets} {s : String} (hs : s ∉ targets.symbols) :
    targets.bindings.lookup s = none := by
  cases targets with
  | chain target targets elts => exact (lookup_map_self _ _ s).trans (if_neg hs)
  | unpack targets => exact (lookup_map_self _ _ s).trans (if_neg hs)

theorem lookup_assigned_eq_none {targets : Targets} {s : String} (hs : s ∉ targets.symbols)
    (n : ℕ) : (targets.assigned n).lookup s = none := by
  cases targets with
  | chain target targets elts => exact (lookup_map_self _ _ s).trans (if_neg hs)
  | unpack targets =>
    rw [List.lookup_eq_none_iff]
    intro d hd
    obtain ⟨p, hp, hsome⟩ := List.mem_filterMap.mp (List.mem_reverse.mp hd)
    obtain ⟨symbol, hsymbol, rfl⟩ := Option.map_eq_some_iff.mp hsome
    have hmem := (List.of_mem_zip (a := p.1) (b := p.2) hp).1
    simpa using fun heq : s = symbol => hs (List.mem_filterMap.mpr ⟨p.1, hmem, heq ▸ hsymbol⟩)

end Bentobox.Sdk.Reaching
