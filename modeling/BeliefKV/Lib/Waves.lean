import Mathlib.Data.List.Sort
import Mathlib.Order.Bounds.Basic
import BeliefKV.Lib.Precedence

/-! Nodes that are visited once those that they require have been, and values that are found from those of the
required nodes. -/
namespace BeliefKV.Precedence
variable {α β : Type} {nodes : Finset α}

/-! ## Visits -/

section Visits
variable [LinearOrder α]

/-- A node waits for one node less; if it waits for none, it is put among those that are ready. -/
def relax (state : (α → ℤ) × List α) (successor : α) : (α → ℤ) × List α :=
  (Function.update state.1 successor (state.1 successor - 1),
    if state.1 successor - 1 = 0 then (state.2 ++ [successor]).insertionSort (· ≤ ·) else state.2)

/-- Visit the first of the nodes that are ready. The result is how many were visited. -/
def drain (successors : α → List α) : ℕ → List α → (α → ℤ) → ℕ → ℕ
  | 0, _, _, visited => visited
  | _ + 1, [], _, visited => visited
  | fuel + 1, a :: ready, indegree, visited =>
    let state := ((successors a).insertionSort (· ≤ ·)).foldl relax (indegree,ready)
    drain successors fuel state.2 state.1 (visited + 1)

/-- Keeping the nodes that are ready in a sorted list changes nothing. -/
theorem foldl_relax : ∀ (targets : List α) (indegree : α → ℤ) (ready : List α), targets.Nodup → ready.Nodup →
    (∀ b ∈ targets, b ∉ ready) →
      (targets.foldl relax (indegree,ready)).1 = (release targets indegree ready.toFinset).1 ∧
        (targets.foldl relax (indegree,ready)).2.toFinset = (release targets indegree ready.toFinset).2 ∧
        (targets.foldl relax (indegree,ready)).2.Nodup := by
  intro targets
  induction targets with
  | nil => exact fun indegree ready _ hready _ => ⟨rfl,rfl,hready⟩
  | cons b targets ih =>
    intro indegree ready htargets hready hapart
    obtain ⟨hb,htargets⟩ := List.nodup_cons.mp htargets
    obtain ⟨hbready,hapart⟩ := List.forall_mem_cons.mp hapart
    have hperm := (ready ++ [b]).perm_insertionSort (· ≤ ·)
    have hset : (if indegree b - 1 = 0 then (ready ++ [b]).insertionSort (· ≤ ·) else ready).toFinset =
        if indegree b - 1 = 0 then insert b ready.toFinset else ready.toFinset := by
      split_ifs
      · rw [List.toFinset_eq_of_perm _ _ hperm,List.toFinset_append,Finset.union_comm]
        rfl
      · rfl
    have hnodup : (if indegree b - 1 = 0 then (ready ++ [b]).insertionSort (· ≤ ·) else ready).Nodup := by
      split_ifs
      · exact hperm.nodup_iff.mpr (List.nodup_append.mpr ⟨hready,List.nodup_singleton b,by
          rintro x hx y hy rfl
          exact hbready (List.mem_singleton.mp hy ▸ hx)⟩)
      · exact hready
    have hfresh (c : α) (hc : c ∈ targets) :
        c ∉ if indegree b - 1 = 0 then (ready ++ [b]).insertionSort (· ≤ ·) else ready := by
      rw [← List.mem_toFinset,hset]
      have hcb : c ≠ b := fun h => hb (h ▸ hc)
      split_ifs <;> simp [hcb,hapart c hc]
    obtain ⟨hdegree,havailable,hlast⟩ := ih (Function.update indegree b (indegree b - 1)) _ htargets hnodup hfresh
    rw [hset] at hdegree havailable
    exact ⟨hdegree,havailable,hlast⟩

variable {required : α → Finset α} {successors : α → List α}

/-- The visits end when nothing is ready. -/
theorem drain_spec (hnodup : ∀ a, (successors a).Nodup)
    (hsuccessors : ∀ a b, b ∈ successors a ↔ b ∈ nodes ∧ a ∈ required b) (fuel : ℕ) :
    ∀ {order ready : List α} {indegree : α → ℤ}, Feasible nodes required order →
      Frontier nodes required order indegree ready.toFinset → ready.Nodup → nodes.card ≤ fuel + order.length →
        ∃ order', Feasible nodes required order' ∧ drain successors fuel ready indegree order.length = order'.length ∧
          ∀ a, ¬ Ready nodes required order' a := by
  induction fuel with
  | zero =>
    intro order ready indegree horder _ _ hfuel
    have hall := topological_iff.mpr ⟨horder,horder.length_le.antisymm (by omega)⟩
    exact ⟨order,horder,rfl,fun a ha => ha.new ((hall.mem_iff a).mpr ha.mem)⟩
  | succ fuel ih =>
    intro order ready indegree horder hfrontier hready hfuel
    cases ready with
    | nil =>
      refine ⟨order,horder,rfl,fun a ha => ?_⟩
      exact Finset.notMem_empty a ((hfrontier.available a).mpr ha)
    | cons a ready =>
      obtain ⟨hfresh,hready⟩ := List.nodup_cons.mp hready
      have ha := (hfrontier.available a).mp (List.mem_toFinset.mpr List.mem_cons_self)
      have hperm := (successors a).perm_insertionSort (· ≤ ·)
      have hmem (b : α) : b ∈ (successors a).insertionSort (· ≤ ·) ↔ b ∈ nodes ∧ a ∈ required b :=
        hperm.mem_iff.trans (hsuccessors a b)
      have hnext := hfrontier.release horder ha (hperm.nodup_iff.mpr (hnodup a)) hmem
      have herase : (a :: ready).toFinset.erase a = ready.toFinset := by
        rw [List.toFinset_cons,Finset.erase_insert fun h => hfresh (List.mem_toFinset.mp h)]
      rw [herase] at hnext
      -- What a ready node requires has come, so the visited node is not among that.
      have hapart (b : α) (hb : b ∈ (successors a).insertionSort (· ≤ ·)) : b ∉ ready := by
        intro hbready
        have hfree := (hfrontier.available b).mp (List.mem_toFinset.mpr (List.mem_cons_of_mem a hbready))
        exact ha.new (hfree.free a ((hmem b).mp hb).2)
      obtain ⟨hdegree,havailable,hlast⟩ := foldl_relax _ indegree ready (hperm.nodup_iff.mpr (hnodup a)) hready hapart
      rw [← hdegree,← havailable] at hnext
      have hlength : (order ++ [a]).length = order.length + 1 := by rw [List.length_append,List.length_singleton]
      obtain ⟨order',horder',hdrain,hnone⟩ := ih (feasible_concat_iff.mpr ⟨horder,ha⟩) hnext hlast (by omega)
      rw [hlength] at hdrain
      exact ⟨order',horder',hdrain,hnone⟩

theorem drain_eq_iff (hnodup : ∀ a, (successors a).Nodup)
    (hsuccessors : ∀ a b, b ∈ successors a ↔ b ∈ nodes ∧ a ∈ required b)
    (hknown : ∀ a ∈ nodes, ∀ b ∈ required a, b ∈ nodes) {ready : List α} {indegree : α → ℤ}
    (hfrontier : Frontier nodes required [] indegree ready.toFinset) (hready : ready.Nodup) :
    drain successors nodes.card ready indegree 0 = nodes.card ↔ Forest.Acyclic (Precedes nodes required) := by
  obtain ⟨order,horder,hdrain,hnone⟩ :=
    drain_spec hnodup hsuccessors nodes.card feasible_nil hfrontier hready (Nat.le_add_right _ _)
  rw [List.length_nil] at hdrain
  rw [hdrain]
  constructor
  · exact fun hall => (topological_iff.mpr ⟨horder,hall⟩).acyclic
  · intro hacyclic
    by_contra hless
    obtain ⟨a,ha,hnew⟩ := horder.exists_new hless
    obtain ⟨b,hb⟩ := exists_ready hacyclic hknown ha hnew
    exact hnone b hb

end Visits

/-- What holds of a node if it holds of those that it requires holds of all of them. -/
theorem ready_induction {P : α → Prop} (hacyclic : Forest.Acyclic (Precedes nodes required))
    (hknown : ∀ a ∈ nodes, ∀ b ∈ required a, b ∈ nodes) (step : ∀ a ∈ nodes, (∀ b ∈ required a, P b) → P a) :
    ∀ a ∈ nodes, P a := by
  classical
  intro a ha
  by_contra hno
  have hready : ∃ b, Ready nodes required (nodes.filter P).toList b :=
    exists_ready hacyclic hknown ha (by simp [hno])
  obtain ⟨b,hb⟩ := hready
  refine hb.new ?_
  rw [Finset.mem_toList,Finset.mem_filter]
  refine ⟨hb.mem,step b hb.mem fun c hc => ?_⟩
  exact (Finset.mem_filter.mp (Finset.mem_toList.mp (hb.free c hc))).2

/-! ## Values -/

variable {preds : α → List α} {value : α → List β → β} {known : α → Option β} {remaining : List α} {a : α}

/-- The values of the nodes that do not remain follow from each other. -/
structure Known (nodes : Finset α) (preds : α → List α) (value : α → List β → β) (known : α → Option β)
    (remaining : List α) : Prop where
  nodup : remaining.Nodup
  mem_iff : ∀ a, a ∈ remaining ↔ a ∈ nodes ∧ known a = none
  closed : ∀ a b, known a = some b → (∀ c ∈ preds a, known c ≠ none) ∧ b = value a ((preds a).filterMap known)

theorem Known.start (hnodup : remaining.Nodup) (hmem : ∀ a, a ∈ remaining ↔ a ∈ nodes) :
    Known nodes preds value (fun _ => none) remaining :=
  ⟨hnodup,fun a => by simp [hmem a],fun _ _ h => absurd h (Option.some_ne_none _).symm⟩

/-- Once none remains, each node has the value that follows from those of the nodes that it requires. -/
theorem Known.solves [Inhabited β] (h : Known nodes preds value known []) :
    ∀ a ∈ nodes, known a = some ((known a).getD default) ∧
      (known a).getD default = value a ((preds a).map fun b => (known b).getD default) := by
  intro a ha
  obtain ⟨x,hx⟩ : ∃ x, known a = some x := by
    refine Option.ne_none_iff_exists'.mp fun hnone => ?_
    exact List.not_mem_nil ((h.mem_iff a).mpr ⟨ha,hnone⟩)
  obtain ⟨hpreds,hvalue⟩ := h.closed a x hx
  have hmap : (preds a).filterMap known = (preds a).map fun b => (known b).getD default := by
    rw [← List.filterMap_eq_map]
    refine List.filterMap_congr fun b hb => ?_
    obtain ⟨y,hy⟩ := Option.ne_none_iff_exists'.mp (hpreds b hb)
    simp [hy]
  rw [hx,Option.getD_some,← hmap]
  exact ⟨rfl,hvalue⟩

section Passes
variable [LinearOrder α]

/-- Find the value of a node if those of the nodes that it requires are known. -/
def settle (preds : α → List α) (value : α → List β → β) (state : (α → Option β) × List α) (a : α) :
    (α → Option β) × List α :=
  if (preds a).any fun b => (state.1 b).isNone then state
  else (Function.update state.1 a (some (value a ((preds a).filterMap state.1))),state.2.erase a)

/-- Try the remaining nodes in increasing order, until none is left; a pass that finds no value is the last one. -/
def passes (preds : α → List α) (value : α → List β → β) :
    ℕ → (α → Option β) → List α → Option (α → Option β)
  | _, known, [] => some known
  | 0, _, _ :: _ => none
  | fuel + 1, known, a :: remaining =>
    let after := ((a :: remaining).insertionSort (· ≤ ·)).foldl (settle preds value) (known,a :: remaining)
    if after.2.length = (a :: remaining).length then none else passes preds value fuel after.1 after.2

theorem settle_of_free (hfree : ∀ b ∈ preds a, known b ≠ none) : settle preds value (known,remaining) a =
    (Function.update known a (some (value a ((preds a).filterMap known))),remaining.erase a) := by
  rw [settle,if_neg]
  rw [List.any_eq_true]
  rintro ⟨b,hb,hnone⟩
  exact hfree b hb (Option.isNone_iff_eq_none.mp hnone)

theorem settle_of_waits {b : α} (hb : b ∈ preds a) (hnone : known b = none) :
    settle preds value (known,remaining) a = (known,remaining) := by
  rw [settle,if_pos]
  exact List.any_eq_true.mpr ⟨b,hb,Option.isNone_iff_eq_none.mpr hnone⟩

theorem Known.update (h : Known nodes preds value known remaining) (ha : a ∈ remaining)
    (hfree : ∀ b ∈ preds a, known b ≠ none) : Known nodes preds value
      (Function.update known a (some (value a ((preds a).filterMap known)))) (remaining.erase a) := by
  obtain ⟨hnode,hnone⟩ := (h.mem_iff a).mp ha
  have hsame (c : α) (hc : ∀ b ∈ preds c, known b ≠ none) (b : α) (hb : b ∈ preds c) :
      Function.update known a (some (value a ((preds a).filterMap known))) b = known b := by
    apply Function.update_of_ne
    rintro rfl
    exact hc b hb hnone
  refine ⟨h.nodup.erase a,fun b => ?_,fun c x hx => ?_⟩
  · rw [h.nodup.mem_erase_iff,h.mem_iff]
    by_cases hba : b = a
    · subst hba
      simp
    · simp [hba]
  · by_cases hca : c = a
    · subst hca
      rw [Function.update_self,Option.some.injEq] at hx
      refine ⟨fun b hb => (hsame c hfree b hb).trans_ne (hfree b hb),?_⟩
      rw [← hx,List.filterMap_congr (hsame c hfree)]
    · rw [Function.update_of_ne hca] at hx
      obtain ⟨hc,hvalue⟩ := h.closed c x hx
      refine ⟨fun b hb => (hsame c hc b hb).trans_ne (hc b hb),?_⟩
      rw [hvalue,List.filterMap_congr (hsame c hc)]

/-- A pass over some of the remaining nodes finds at least the values of those that were free. -/
theorem Known.pass : ∀ {l : List α} {known : α → Option β} {remaining : List α},
    Known nodes preds value known remaining → l.Nodup → (∀ a ∈ l, a ∈ remaining) →
      Known nodes preds value (l.foldl (settle preds value) (known,remaining)).1
          (l.foldl (settle preds value) (known,remaining)).2 ∧
        (l.foldl (settle preds value) (known,remaining)).2.Sublist remaining ∧
        ∀ a ∈ l, (∀ b ∈ preds a, known b ≠ none) →
          a ∉ (l.foldl (settle preds value) (known,remaining)).2 := by
  intro l
  induction l with
  | nil => exact fun h _ _ => ⟨h,List.Sublist.refl _,fun a ha => absurd ha List.not_mem_nil⟩
  | cons a l ih =>
    intro known remaining h hnodup hl
    obtain ⟨hal,hnodup⟩ := List.nodup_cons.mp hnodup
    obtain ⟨ha,hl⟩ := List.forall_mem_cons.mp hl
    rw [List.foldl_cons]
    by_cases hfree : ∀ b ∈ preds a, known b ≠ none
    · rw [settle_of_free hfree]
      have hleft (b : α) (hb : b ∈ l) : b ∈ remaining.erase a := by
        refine (List.mem_erase_of_ne ?_).mpr (hl b hb)
        rintro rfl
        exact hal hb
      obtain ⟨hlast,hsub,hfound⟩ := ih (h.update ha hfree) hnodup hleft
      refine ⟨hlast,hsub.trans List.erase_sublist,List.forall_mem_cons.mpr ⟨fun _ hout => ?_,fun b hb hb' => ?_⟩⟩
      · exact h.nodup.not_mem_erase (hsub.subset hout)
      · refine hfound b hb fun c hc => ?_
        by_cases hca : c = a
        · rw [hca,Function.update_self]
          exact Option.some_ne_none _
        · rw [Function.update_of_ne hca]
          exact hb' c hc
    · have hwaits := hfree
      push Not at hwaits
      obtain ⟨b,hb,hnone⟩ := hwaits
      rw [settle_of_waits hb hnone]
      obtain ⟨hlast,hsub,hfound⟩ := ih h hnodup hl
      exact ⟨hlast,hsub,List.forall_mem_cons.mpr ⟨fun h => absurd h hfree,hfound⟩⟩

/-- Without cycles each pass finds a value, until all are known. -/
theorem passes_spec (hacyclic : Forest.Acyclic (Precedes nodes fun a => (preds a).toFinset))
    (hnodes : ∀ a ∈ nodes, ∀ b ∈ preds a, b ∈ nodes) (fuel : ℕ) :
    ∀ {known : α → Option β} {remaining : List α}, Known nodes preds value known remaining →
      remaining.length ≤ fuel →
        ∃ final, passes preds value fuel known remaining = some final ∧ Known nodes preds value final [] := by
  induction fuel with
  | zero =>
    intro known remaining h hfuel
    have hnil := List.length_eq_zero_iff.mp (Nat.le_zero.mp hfuel)
    subst hnil
    exact ⟨known,by rw [passes],h⟩
  | succ fuel ih =>
    intro known remaining h hfuel
    cases remaining with
    | nil => exact ⟨known,by rw [passes],h⟩
    | cons a remaining =>
      have hperm := (a :: remaining).perm_insertionSort (· ≤ ·)
      obtain ⟨hlast,hsub,hfound⟩ := h.pass (hperm.nodup_iff.mpr h.nodup) fun b hb => hperm.mem_iff.mp hb
      have hmem := (h.mem_iff a).mp List.mem_cons_self
      have hready : ∃ b, Ready nodes (fun a => (preds a).toFinset) (nodes.filter fun b => known b ≠ none).toList b :=
        exists_ready hacyclic (fun c hc d hd => hnodes c hc d (List.mem_toFinset.mp hd)) hmem.1 (by simp [hmem.2])
      obtain ⟨b,hb⟩ := hready
      have hbleft : b ∈ a :: remaining := by
        refine (h.mem_iff b).mpr ⟨hb.mem,?_⟩
        by_contra hsome
        exact hb.new (by simp [hb.mem,hsome])
      have hbfree : ∀ c ∈ preds b, known c ≠ none := by
        intro c hc
        have := hb.free c (List.mem_toFinset.mpr hc)
        rw [Finset.mem_toList,Finset.mem_filter] at this
        exact this.2
      have hgone := hfound b (hperm.mem_iff.mpr hbleft) hbfree
      have hless := hsub.length_le.lt_of_ne fun hlength => hgone ((hsub.eq_of_length hlength).symm ▸ hbleft)
      rw [passes,if_neg hless.ne]
      exact ih hlast (by omega)

end Passes

/-! ## Longest chains -/

/-- What the nodes of a chain add up to. -/
def weight (extend : α → β → β) (zero : β) (chain : List α) : β := chain.foldl (fun x a => extend a x) zero

/-- A chain of nodes, each required by the next one, that ends at some node. -/
def LeadsTo (preds : α → List α) (chain : List α) (a : α) : Prop :=
  ∃ before, chain = before ++ [a] ∧ chain.IsChain fun b c => b ∈ preds c

variable {extend : α → β → β} {zero : β} {f : α → β}

theorem leadsTo_singleton : LeadsTo preds [a] a := ⟨[],rfl,List.isChain_singleton a⟩

theorem LeadsTo.concat {chain : List α} {b : α} (h : LeadsTo preds chain b) (hb : b ∈ preds a) :
    LeadsTo preds (chain ++ [a]) a := by
  obtain ⟨before,rfl,hchain⟩ := h
  refine ⟨before ++ [b],rfl,List.isChain_append.mpr ⟨hchain,List.isChain_singleton a,?_⟩⟩
  simp [hb]

theorem weight_concat (chain : List α) (a : α) :
    weight extend zero (chain ++ [a]) = extend a (weight extend zero chain) := by
  rw [weight,List.foldl_append]
  rfl

section Longest
variable [LinearOrder β]

/-- The largest of some values, or another value where there is none. -/
def largest (zero : β) : List β → β
  | [] => zero
  | b :: l => l.foldl max b

theorem le_foldl_max : ∀ (l : List β) (b : β), b ≤ l.foldl max b ∧ ∀ c ∈ l, c ≤ l.foldl max b := by
  intro l
  induction l with
  | nil => exact fun b => ⟨le_rfl,fun c hc => absurd hc List.not_mem_nil⟩
  | cons c l ih =>
    intro b
    obtain ⟨hmax,hall⟩ := ih (max b c)
    exact ⟨(le_max_left b c).trans hmax,List.forall_mem_cons.mpr ⟨(le_max_right b c).trans hmax,hall⟩⟩

theorem foldl_max_mem : ∀ (l : List β) (b : β), l.foldl max b ∈ b :: l := by
  intro l
  induction l with
  | nil => exact fun b => List.mem_cons_self
  | cons c l ih =>
    intro b
    obtain hmax | hmem := List.mem_cons.mp (ih (max b c))
    · rw [List.foldl_cons,hmax]
      obtain h | h := max_choice b c
      · rw [h]
        exact List.mem_cons_self
      · rw [h]
        exact List.mem_cons_of_mem b List.mem_cons_self
    · exact List.mem_cons_of_mem b (List.mem_cons_of_mem c hmem)

theorem isGreatest_largest (zero : β) {l : List β} (h : l ≠ []) : IsGreatest {b | b ∈ l} (largest zero l) := by
  cases l with
  | nil => exact absurd rfl h
  | cons b l =>
    refine ⟨foldl_max_mem l b,fun c hc => ?_⟩
    obtain rfl | hc := List.mem_cons.mp hc
    · exact (le_foldl_max l c).1
    · exact (le_foldl_max l b).2 c hc

/-- A value that follows from the largest one of the required nodes is that of the longest chain. -/
theorem isGreatest_weight [DecidableEq α] (hacyclic : Forest.Acyclic (Precedes nodes fun a => (preds a).toFinset))
    (hnodes : ∀ a ∈ nodes, ∀ b ∈ preds a, b ∈ nodes) (hmono : ∀ a, Monotone (extend a))
    (hzero : ∀ a ∈ nodes, zero ≤ extend a zero)
    (hf : ∀ a ∈ nodes, f a = extend a (largest zero ((preds a).map f))) :
    ∀ a ∈ nodes, IsGreatest {x | ∃ chain, LeadsTo preds chain a ∧ x = weight extend zero chain} (f a) := by
  have hinduct {P : α → Prop} := ready_induction (P := P) hacyclic fun c hc d hd =>
    hnodes c hc d (List.mem_toFinset.mp hd)
  have hlargest (a : α) (h : ∀ b ∈ preds a, zero ≤ f b) : zero ≤ largest zero ((preds a).map f) := by
    by_cases hnil : (preds a).map f = []
    · rw [hnil]
      exact le_rfl
    · obtain ⟨b,hb,hmax⟩ := List.mem_map.mp (isGreatest_largest zero hnil).1
      rw [← hmax]
      exact h b hb
  have hnonneg : ∀ a ∈ nodes, zero ≤ f a := by
    refine hinduct fun a ha ih => ?_
    rw [hf a ha]
    exact (hzero a ha).trans (hmono a (hlargest a fun b hb => ih b (List.mem_toFinset.mpr hb)))
  intro a ha
  constructor
  · revert a
    refine hinduct fun a ha ih => ?_
    rw [hf a ha]
    by_cases hnil : (preds a).map f = []
    · rw [hnil]
      exact ⟨[a],leadsTo_singleton,rfl⟩
    · obtain ⟨b,hb,hmax⟩ := List.mem_map.mp (isGreatest_largest zero hnil).1
      obtain ⟨chain,hchain,hweight⟩ := ih b (List.mem_toFinset.mpr hb)
      exact ⟨chain ++ [a],hchain.concat hb,by rw [weight_concat,← hmax,hweight]⟩
  · rintro x ⟨chain,⟨before,rfl,hchain⟩,rfl⟩
    induction before using List.reverseRecOn generalizing a with
    | nil =>
      rw [weight_concat,hf a ha]
      exact hmono a (hlargest a fun b hb => hnonneg b (hnodes a ha b hb))
    | append_singleton before b ih =>
      obtain ⟨hbefore,-,hlast⟩ := List.isChain_append.mp hchain
      have hb : b ∈ preds a := hlast b (by simp) a (by simp)
      have hnil : (preds a).map f ≠ [] := List.ne_nil_of_mem (List.mem_map_of_mem hb)
      rw [weight_concat,hf a ha]
      refine hmono a ((ih b (hnodes a ha b hb) hbefore).trans ?_)
      exact (isGreatest_largest zero hnil).2 (List.mem_map_of_mem hb)

end Longest
end BeliefKV.Precedence
