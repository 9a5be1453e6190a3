import BeliefKV.Graph.Writes
import BeliefKV.Lib.Forest
import BeliefKV.Lib.Walk

/-! The family of the invocations: parents form a forest inside each workflow, and the walks over
parents and children end. -/
namespace BeliefKV

/-- The order in which the source iterates over a set; it is not specified. -/
structure SetOrder where
  list : Finset String → List String
  nodup : ∀ s, (list s).Nodup
  mem : ∀ s k, k ∈ list s ↔ k ∈ s

theorem SetOrder.length (order : SetOrder) (s : Finset String) : (order.list s).length = s.card := by
  have heq : (order.list s).toFinset = s := by
    ext k
    rw [List.mem_toFinset,order.mem]
  rw [← List.toFinset_card_of_nodup (order.nodup s),heq]

namespace RuntimeCausalContextGraph
open Relation Forest
variable (g : RuntimeCausalContextGraph)

/-! ## Queries -/

/-- The walk over parents that collects them. -/
def ancestorsFrom : ℕ → InvocationRecord → Finset String → Except Raised (List InvocationRecord)
  | 0, _, _ => .error (.causalGraphError "invocation graph contains a cycle")
  | fuel + 1, invocation, seen =>
    match invocation.parentInvocationId with
    | none => .ok []
    | some parentId =>
      if parentId ∈ seen then .error (.causalGraphError "invocation graph contains a cycle")
      else
        match g.invocations[parentId]? with
        | none => .error (.keyError parentId)
        | some parent => (ancestorsFrom fuel parent (insert parentId seen)).map (parent :: ·)

def ancestors (invocationId : String) : Except Raised (List InvocationRecord) :=
  match g.invocations[invocationId]? with
  | none => .error (.keyError invocationId)
  | some invocation => g.ancestorsFrom (g.invocations.size + 1) invocation ∅

/-- The number of children a walk can push. -/
def childCount : ℕ := (g.invocations.vals.map fun r => r.childInvocationIds.card).sum

/-- The children of an invocation as they come off the stack, which is popped at its end. -/
def pushedChildren (order : SetOrder) (id : String) : Option (List String) :=
  g.invocations[id]?.map fun r => (order.list r.childInvocationIds).reverse

def activeDescendants (order : SetOrder) (invocationId : String) :
    Except Raised (List InvocationRecord) :=
  match g.pushedChildren order invocationId with
  | none => .error (.keyError invocationId)
  | some stack =>
    let trace := Walk.explore (g.pushedChildren order) (g.childCount + stack.length) stack {}
    match trace.missed with
    | id :: _ => .error (.keyError id)
    | [] => .ok (trace.visited.filterMap fun id => g.invocations[id]?.filter (!·.state.terminal))

/-! ## The invariant -/

/-- `b` is the parent of `a`. -/
def IsParent (a b : String) : Prop :=
  ∃ r : InvocationRecord, g.invocations[a]? = some r ∧ r.parentInvocationId = some b

/-- `b` is listed as a child of `a`. -/
def IsChild (a b : String) : Prop :=
  ∃ r : InvocationRecord, g.invocations[a]? = some r ∧ b ∈ r.childInvocationIds

structure Family : Prop where
  acyclic : Acyclic g.IsParent
  parent : ∀ (k : String) (r : InvocationRecord), g.invocations[k]? = some r →
    ∀ p, r.parentInvocationId = some p → g.KnownIn r.workflowId p
  child : ∀ a b, g.IsChild a b → g.IsParent b a
  blocking : ∀ (k : String) (r : InvocationRecord), g.invocations[k]? = some r →
    r.blockingChildIds ⊆ r.childInvocationIds
  enrolled : ∀ (k : String) (r : InvocationRecord), g.invocations[k]? = some r →
    ∃ w : WorkflowRecord, g.workflows[r.workflowId]? = some w ∧ k ∈ w.invocationIds
  placed : ∀ (k : String) (r : InvocationRecord), g.invocations[k]? = some r →
    ∃ c : ContextRecord, g.contexts[r.contextId]? = some c ∧ k ∈ c.invocationIds

variable {g} {g' : RuntimeCausalContextGraph} {e : RuntimeEvent} {i k : String}
  {r : InvocationRecord}

theorem KnownIn.of_kept {w : String} (hk : g.KnownIn w k)
    (hkeep : ∀ (k : String) (r : InvocationRecord), g.invocations[k]? = some r →
      ∃ r', g'.invocations[k]? = some r' ∧ KinKept r r') : g'.KnownIn w k := by
  obtain ⟨q,hq,rfl⟩ := hk
  obtain ⟨q',hq',hkin⟩ := hkeep k q hq
  exact ⟨q',hq',hkin.workflowId⟩

/-- The family survives writes that keep every record in its place and every list. -/
theorem Family.of_kept (hg : g.Family)
    (hkeep : ∀ (k : String) (r : InvocationRecord), g.invocations[k]? = some r →
      ∃ r', g'.invocations[k]? = some r' ∧ KinKept r r')
    (hback : ∀ (k : String) (r' : InvocationRecord), g'.invocations[k]? = some r' →
      ∃ r, g.invocations[k]? = some r ∧ KinKept r r')
    (hwf : ∀ (w : String) (x : WorkflowRecord), g.workflows[w]? = some x → ∃ y : WorkflowRecord,
      g'.workflows[w]? = some y ∧ x.invocationIds ⊆ y.invocationIds)
    (hctx : ∀ (c : String) (x : ContextRecord), g.contexts[c]? = some x → ∃ y : ContextRecord,
      g'.contexts[c]? = some y ∧ x.invocationIds ⊆ y.invocationIds) : g'.Family where
  acyclic := by
    refine hg.acyclic.mono fun a b hab => ?_
    obtain ⟨r',hr',hp⟩ := hab
    obtain ⟨r,hr,hkin⟩ := hback a r' hr'
    exact ⟨r,hr,hkin.parent ▸ hp⟩
  parent k r' hr' p hp := by
    obtain ⟨r,hr,hkin⟩ := hback k r' hr'
    rw [hkin.workflowId]
    exact (hg.parent k r hr p (hkin.parent ▸ hp)).of_kept hkeep
  child a b hab := by
    obtain ⟨r',hr',hb⟩ := hab
    obtain ⟨r,hr,hkin⟩ := hback a r' hr'
    obtain ⟨q,hq,hp⟩ := hg.child a b ⟨r,hr,hkin.children ▸ hb⟩
    obtain ⟨q',hq',hkin'⟩ := hkeep b q hq
    exact ⟨q',hq',hkin'.parent ▸ hp⟩
  blocking k r' hr' := by
    obtain ⟨r,hr,hkin⟩ := hback k r' hr'
    rw [hkin.children]
    exact hkin.blocking.trans (hg.blocking k r hr)
  enrolled k r' hr' := by
    obtain ⟨r,hr,hkin⟩ := hback k r' hr'
    obtain ⟨x,hx,hmem⟩ := hg.enrolled k r hr
    obtain ⟨y,hy,hsub⟩ := hwf _ x hx
    exact ⟨y,hkin.workflowId ▸ hy,hsub hmem⟩
  placed k r' hr' := by
    obtain ⟨r,hr,hkin⟩ := hback k r' hr'
    obtain ⟨x,hx,hmem⟩ := hg.placed k r hr
    obtain ⟨y,hy,hsub⟩ := hctx _ x hx
    exact ⟨y,hkin.contextId ▸ hy,hsub hmem⟩

/-- Writes that leave the invocations alone. -/
theorem Family.of_lists (hg : g.Family) (hinv : g'.invocations = g.invocations)
    (hwf : ∀ (w : String) (x : WorkflowRecord), g.workflows[w]? = some x → ∃ y : WorkflowRecord,
      g'.workflows[w]? = some y ∧ x.invocationIds ⊆ y.invocationIds)
    (hctx : ∀ (c : String) (x : ContextRecord), g.contexts[c]? = some x → ∃ y : ContextRecord,
      g'.contexts[c]? = some y ∧ x.invocationIds ⊆ y.invocationIds) : g'.Family :=
  hg.of_kept (fun _ r hr => ⟨r,hinv ▸ hr,.refl r⟩) (fun _ r hr => ⟨r,hinv ▸ hr,.refl r⟩) hwf hctx

theorem Family.of_eq (hg : g.Family) (hinv : g'.invocations = g.invocations)
    (hwf : g'.workflows = g.workflows) (hctx : g'.contexts = g.contexts) : g'.Family :=
  hg.of_lists hinv (fun _ x hx => ⟨x,hwf ▸ hx,subset_rfl⟩) fun _ x hx => ⟨x,hctx ▸ hx,subset_rfl⟩

theorem Family.edit (hg : g.Family) {ids : Finset String} {f : InvocationRecord → InvocationRecord}
    (hf : ∀ k ∈ ids, ∀ r, g.invocations[k]? = some r → KinKept r (f r)) :
    (g.editInvocations ids f).Family := by
  refine hg.of_kept (fun k r hr => ?_) (fun k r' hr' => ?_) (fun _ x hx => ⟨x,hx,subset_rfl⟩)
    fun _ x hx => ⟨x,hx,subset_rfl⟩
  · simp only [editInvocations,Dict.get_updateAll,hr]
    split_ifs with hk
    · exact ⟨f r,rfl,hf k hk r hr⟩
    · exact ⟨r,rfl,.refl r⟩
  · simp only [editInvocations,Dict.get_updateAll] at hr'
    split_ifs at hr' with hk
    · obtain ⟨r,hr,rfl⟩ := Option.map_eq_some_iff.mp hr'
      exact ⟨r,hr,hf k hk r hr⟩
    · exact ⟨r',hr',.refl r'⟩

theorem Family.enter (hg : g.Family) {x : WorkflowRecord} {y : ContextRecord}
    (hr : g.Enters r x y) : (g.enter r x y).Family := by
  have hnone := (Dict.notMem_iff_get _ _).mp hr.fresh
  have hold {k : String} {q : InvocationRecord} (hq : g.invocations[k]? = some q) :
      (g.enter r x y).invocations[k]? = some q := by
    simp only [RuntimeCausalContextGraph.enter,Dict.get_insert]
    rw [if_neg (by rintro rfl; simp [hnone] at hq)]
    exact hq
  have hcases {k : String} {q : InvocationRecord} (hq : (g.enter r x y).invocations[k]? = some q) :
      k = r.invocationId ∧ q = r ∨ g.invocations[k]? = some q := by
    simp only [RuntimeCausalContextGraph.enter,Dict.get_insert] at hq
    split_ifs at hq with hk
    · exact .inl ⟨hk.symm,(Option.some.inj hq).symm⟩
    · exact .inr hq
  have hknown {w k : String} (hk : g.KnownIn w k) : (g.enter r x y).KnownIn w k := by
    obtain ⟨q,hq,hw⟩ := hk
    exact ⟨q,hold hq,hw⟩
  constructor
  · cases hp : r.parentInvocationId with
    | none =>
      refine hg.acyclic.mono fun a b hab => ?_
      obtain ⟨q,hq,hb⟩ := hab
      rcases hcases hq with ⟨-,rfl⟩ | hq
      · simp [hp] at hb
      · exact ⟨q,hq,hb⟩
    | some p =>
      obtain ⟨q,hq,-⟩ := hr.parent p hp
      refine hg.acyclic.add (x := r.invocationId) (p := p) (fun a b hab => ?_) fun hpath => ?_
      · obtain ⟨q,hq,hb⟩ := hab
        rcases hcases hq with ⟨rfl,rfl⟩ | hq
        · exact .inr ⟨rfl,Option.some.inj (hb.symm.trans hp)⟩
        · exact .inl ⟨q,hq,hb⟩
      · -- Nothing points to an invocation that does not exist yet.
        have hnobody : ∀ b, ¬ g.IsParent b r.invocationId := by
          rintro b ⟨q,hq,hb⟩
          obtain ⟨z,hz,-⟩ := hg.parent b q hq _ hb
          simp [hnone] at hz
        rw [eq_of_reflTransGen_of_noIncoming hnobody hpath,hnone] at hq
        cases hq
  · intro k q hq p hp
    rcases hcases hq with ⟨-,rfl⟩ | hq
    · exact hknown (hr.parent p hp)
    · exact hknown (hg.parent k q hq p hp)
  · rintro a b ⟨q,hq,hb⟩
    rcases hcases hq with ⟨-,rfl⟩ | hq
    · simp [hr.children] at hb
    · obtain ⟨z,hz,hp⟩ := hg.child a b ⟨q,hq,hb⟩
      exact ⟨z,hold hz,hp⟩
  · intro k q hq
    rcases hcases hq with ⟨-,rfl⟩ | hq
    · simp [hr.blocking]
    · exact hg.blocking k q hq
  · intro k q hq
    simp only [RuntimeCausalContextGraph.enter,Dict.get_insert]
    rcases hcases hq with ⟨rfl,rfl⟩ | hq
    · exact ⟨_,if_pos rfl,Finset.mem_insert_self _ _⟩
    · obtain ⟨w,hw,hmem⟩ := hg.enrolled k q hq
      split_ifs with hwf
      · rw [← hwf,hr.workflow] at hw
        cases hw
        exact ⟨_,rfl,Finset.mem_insert_of_mem hmem⟩
      · exact ⟨w,hw,hmem⟩
  · intro k q hq
    simp only [RuntimeCausalContextGraph.enter,Dict.get_insert]
    rcases hcases hq with ⟨rfl,rfl⟩ | hq
    · exact ⟨y,if_pos rfl,hr.listed⟩
    · obtain ⟨c,hc,hmem⟩ := hg.placed k q hq
      split_ifs with hctx
      · rw [← hctx] at hc
        exact ⟨y,rfl,(hr.context c hc).invocationIds hmem⟩
      · exact ⟨c,hc,hmem⟩

/-- What linking makes of a record. -/
structure Linked (p c : InvocationRecord) (k : String) (q q' : InvocationRecord) : Prop where
  workflowId : q'.workflowId = q.workflowId
  contextId : q'.contextId = q.contextId
  parent : q'.parentInvocationId = if k = c.invocationId then some p.invocationId
    else q.parentInvocationId
  children : q'.childInvocationIds = if k = p.invocationId then insert c.invocationId
    q.childInvocationIds else q.childInvocationIds
  blocking : q'.blockingChildIds ⊆ if k = p.invocationId then insert c.invocationId
    q.blockingChildIds else q.blockingChildIds

/-- The graph after a link, record by record. -/
theorem get_linked {p c : InvocationRecord} (mode : ExecutionMode) (hl : g.Links p c) (k : String) :
    ∃ f : InvocationRecord → InvocationRecord,
      ((g.editInvocations {c.invocationId} (linkedChild e p mode)).editInvocations
        {p.invocationId} (linkedParent e c.invocationId mode)).invocations[k]? =
          g.invocations[k]?.map f ∧ ∀ q, Linked p c k q (f q) := by
  simp only [editInvocations,Dict.get_updateAll,Finset.mem_singleton]
  by_cases hp : k = p.invocationId
  · have hc : k ≠ c.invocationId := by
      rintro rfl
      exact hl.ne hp.symm
    refine ⟨linkedParent e c.invocationId mode,by simp [hp,hl.ne],fun q => ?_⟩
    unfold linkedParent
    dsimp only
    split_ifs with hmode
    · exact ⟨rfl,rfl,by simp [hc],by simp [hp],by simp [hp]⟩
    · exact ⟨rfl,rfl,by simp [hc],by simp [hp],by simp [hp]⟩
  · by_cases hc : k = c.invocationId
    · refine ⟨linkedChild e p mode,by simp [hc,Ne.symm hl.ne],fun q => ?_⟩
      exact ⟨rfl,rfl,by simp [hc,linkedChild],by simp [hp,linkedChild],by simp [hp,linkedChild]⟩
    · exact ⟨id,by simp [hp,hc],fun q => ⟨rfl,rfl,by simp [hc],by simp [hp],by simp [hp]⟩⟩

/-! ## Climbing over parents -/

/-- A climb stands at `k`; it came past the nodes in `seen`, which all exist. -/
structure Climb (g : RuntimeCausalContextGraph) (k : String) (seen : Finset String) : Prop where
  known : seen ⊆ g.invocations.keySet
  below : ∀ s ∈ seen, ReflTransGen g.IsParent s k

theorem Climb.start (g : RuntimeCausalContextGraph) (k : String) : g.Climb k ∅ :=
  ⟨Finset.empty_subset _,by simp⟩

/-- The next parent is new. -/
theorem Climb.up {seen : Finset String} {p : String} (hc : g.Climb k seen) (hg : g.Family)
    (hr : g.invocations[k]? = some r) (hp : r.parentInvocationId = some p) :
    p ∉ seen ∧ g.Climb p (insert p seen) ∧ ∃ q, g.invocations[p]? = some q := by
  have hedge : g.IsParent k p := ⟨r,hr,hp⟩
  obtain ⟨q,hq,-⟩ := hg.parent k r hr p hp
  refine ⟨fun hmem => hg.acyclic p (TransGen.tail' (hc.below p hmem) hedge),⟨?_,?_⟩,q,hq⟩
  · refine Finset.insert_subset ?_ hc.known
    rw [Dict.mem_keySet]
    exact mem_of_get hq
  · intro s hs
    rcases Finset.mem_insert.mp hs with rfl | hs
    · exact .refl
    · exact (hc.below s hs).tail hedge

theorem Climb.card_le {seen : Finset String} (hc : g.Climb k seen) : seen.card ≤ g.invocations.size := by
  have hle := Finset.card_le_card hc.known
  have hsize : g.invocations.keySet.card = g.invocations.size := by
    unfold Dict.keySet
    rw [List.toFinset_card_of_nodup Std.ExtTreeMap.nodup_keys,Std.ExtTreeMap.length_keys]
  omega

theorem not_isParent_of_none {p : String} (hr : g.invocations[k]? = some r)
    (hp : r.parentInvocationId = none) : ¬ g.IsParent k p := by
  rintro ⟨q,hq,hqp⟩
  cases hr.symm.trans hq
  simp [hp] at hqp

/-- Whoever is above `k` is its parent or above it. -/
theorem transGen_isParent {p a : String} (hr : g.invocations[k]? = some r)
    (hp : r.parentInvocationId = some p) : TransGen g.IsParent k a ↔ p = a ∨ TransGen g.IsParent p a := by
  have hedge : g.IsParent k p := ⟨r,hr,hp⟩
  constructor
  · intro hpath
    obtain ⟨q,⟨z,hz,hzp⟩,hrest⟩ := TransGen.head'_iff.mp hpath
    cases hr.symm.trans hz
    cases hp.symm.trans hzp
    exact reflTransGen_iff_eq_or_transGen.mp hrest |>.imp_left Eq.symm
  · rintro (rfl | hpath)
    · exact .single hedge
    · exact .head hedge hpath

/-- A negative answer is right, whatever the graph is. -/
theorem isAncestorFrom_false {a : String} {fuel : ℕ} {seen : Finset String}
    (h : g.isAncestorFrom a fuel g.invocations[k]? seen = .ok false) : ¬ TransGen g.IsParent k a := by
  induction fuel generalizing k seen with
  | zero =>
    cases hk : g.invocations[k]? with
    | none =>
      intro hpath
      obtain ⟨q,⟨z,hz,-⟩,-⟩ := TransGen.head'_iff.mp hpath
      simp [hk] at hz
    | some r => simp [hk,isAncestorFrom] at h
  | succ fuel ih =>
    cases hk : g.invocations[k]? with
    | none =>
      intro hpath
      obtain ⟨q,⟨z,hz,-⟩,-⟩ := TransGen.head'_iff.mp hpath
      simp [hk] at hz
    | some r =>
      cases hp : r.parentInvocationId with
      | none =>
        intro hpath
        obtain ⟨q,hq,-⟩ := TransGen.head'_iff.mp hpath
        exact not_isParent_of_none hk hp hq
      | some p =>
        simp only [hk,isAncestorFrom,hp] at h
        split_ifs at h with hpa hseen
        · cases h
        · rw [transGen_isParent hk hp]
          rintro (rfl | hpath)
          · exact hpa rfl
          · exact ih h hpath

/-- With a step for every invocation the climb ends with an answer. -/
theorem isAncestorFrom_spec (hg : g.Family) (a : String) (fuel : ℕ) {seen : Finset String}
    (hc : g.Climb k seen) (hfuel : g.invocations.size < fuel + seen.card) :
    ∃ b, g.isAncestorFrom a fuel g.invocations[k]? seen = .ok b ∧
      (b = true → TransGen g.IsParent k a) := by
  induction fuel generalizing k seen with
  | zero =>
    have hle := hc.card_le
    omega
  | succ fuel ih =>
    cases hk : g.invocations[k]? with
    | none => exact ⟨false,rfl,by simp⟩
    | some r =>
      cases hp : r.parentInvocationId with
      | none => exact ⟨false,by simp [isAncestorFrom,hp],by simp⟩
      | some p =>
        obtain ⟨hnew,hup,-⟩ := hc.up hg hk hp
        simp only [isAncestorFrom,hp,if_neg hnew,transGen_isParent hk hp]
        split_ifs with hpa
        · exact ⟨true,rfl,fun _ => .inl hpa⟩
        · obtain ⟨b,hb,htrue⟩ := ih hup (by rw [Finset.card_insert_of_notMem hnew]; omega)
          exact ⟨b,hb,fun h => .inr (htrue h)⟩

theorem isAncestor_spec (hg : g.Family) (a i : String) : ∃ b, g.isAncestor a i = .ok b ∧
    (b = true ↔ TransGen g.IsParent i a) := by
  obtain ⟨b,hb,htrue⟩ := isAncestorFrom_spec hg a (g.invocations.size + 1) (.start g i) (by simp)
  refine ⟨b,hb,htrue,fun hpath => ?_⟩
  cases b with
  | true => rfl
  | false => exact absurd hpath (isAncestorFrom_false hb)

theorem ancestorsFrom_spec (hg : g.Family) (fuel : ℕ) {seen : Finset String} (hc : g.Climb k seen)
    (hr : g.invocations[k]? = some r) (hfuel : g.invocations.size < fuel + seen.card) :
    ∃ rs, g.ancestorsFrom fuel r seen = .ok rs ∧
      ∀ q, q ∈ rs ↔ ∃ a, TransGen g.IsParent k a ∧ g.invocations[a]? = some q := by
  induction fuel generalizing k r seen with
  | zero =>
    have hle := hc.card_le
    omega
  | succ fuel ih =>
    cases hp : r.parentInvocationId with
    | none =>
      refine ⟨[],by simp [ancestorsFrom,hp],fun q => ?_⟩
      simp only [List.not_mem_nil,false_iff]
      rintro ⟨a,hpath,-⟩
      obtain ⟨p,hedge,-⟩ := TransGen.head'_iff.mp hpath
      exact not_isParent_of_none hr hp hedge
    | some p =>
      obtain ⟨hnew,hup,q,hq⟩ := hc.up hg hr hp
      obtain ⟨rs,hrs,hmem⟩ := ih hup hq (by rw [Finset.card_insert_of_notMem hnew]; omega)
      refine ⟨q :: rs,by simp [ancestorsFrom,hp,hnew,hq,hrs,Except.map],fun z => ?_⟩
      rw [List.mem_cons,hmem]
      simp only [transGen_isParent hr hp]
      constructor
      · rintro (rfl | ⟨a,hpath,ha⟩)
        · exact ⟨p,.inl rfl,hq⟩
        · exact ⟨a,.inr hpath,ha⟩
      · rintro ⟨a,rfl | hpath,ha⟩
        · exact .inl (Option.some.inj (ha.symm.trans hq))
        · exact .inr ⟨a,hpath,ha⟩

theorem ancestors_spec (hg : g.Family) (hr : g.invocations[i]? = some r) :
    ∃ rs, g.ancestors i = .ok rs ∧
      ∀ q, q ∈ rs ↔ ∃ a, TransGen g.IsParent i a ∧ g.invocations[a]? = some q := by
  obtain ⟨rs,hrs,hmem⟩ := ancestorsFrom_spec hg (g.invocations.size + 1) (.start g i) hr (by simp)
  exact ⟨rs,by simp [ancestors,hr,hrs],hmem⟩

/-! ## Every write keeps the family -/

theorem Family.link (hg : g.Family) {p c : InvocationRecord} (mode : ExecutionMode)
    (hl : g.Links p c) :
    ((g.editInvocations {c.invocationId} (linkedChild e p mode)).editInvocations
      {p.invocationId} (linkedParent e c.invocationId mode)).Family := by
  set g' := (g.editInvocations {c.invocationId} (linkedChild e p mode)).editInvocations
    {p.invocationId} (linkedParent e c.invocationId mode) with hg'
  have hkeep {k : String} {q : InvocationRecord} (hq : g.invocations[k]? = some q) :
      ∃ q', g'.invocations[k]? = some q' ∧ Linked p c k q q' := by
    obtain ⟨f,hf,hlinked⟩ := get_linked (e := e) mode hl k
    exact ⟨f q,by rw [hg',hf,hq]; rfl,hlinked q⟩
  have hback {k : String} {q' : InvocationRecord} (hq' : g'.invocations[k]? = some q') :
      ∃ q, g.invocations[k]? = some q ∧ Linked p c k q q' := by
    obtain ⟨f,hf,hlinked⟩ := get_linked (e := e) mode hl k
    rw [hg',hf] at hq'
    obtain ⟨q,hq,rfl⟩ := Option.map_eq_some_iff.mp hq'
    exact ⟨q,hq,hlinked q⟩
  have hknown {w k : String} (hk : g.KnownIn w k) : g'.KnownIn w k := by
    obtain ⟨q,hq,rfl⟩ := hk
    obtain ⟨q',hq',hlinked⟩ := hkeep hq
    exact ⟨q',hq',hlinked.workflowId⟩
  constructor
  · refine hg.acyclic.add (x := c.invocationId) (p := p.invocationId) (fun a b hab => ?_) fun hpath => ?_
    · obtain ⟨q',hq',hb⟩ := hab
      obtain ⟨q,hq,hlinked⟩ := hback hq'
      rw [hlinked.parent] at hb
      split_ifs at hb with ha
      · exact .inr ⟨ha,(Option.some.inj hb).symm⟩
      · exact .inl ⟨q,hq,hb⟩
    · rcases reflTransGen_iff_eq_or_transGen.mp hpath with heq | hpath
      · exact hl.ne heq.symm
      · exact isAncestorFrom_false hl.below hpath
  · intro k q' hq' a ha
    obtain ⟨q,hq,hlinked⟩ := hback hq'
    rw [hlinked.parent] at ha
    rw [hlinked.workflowId]
    split_ifs at ha with hk
    · cases ha
      subst hk
      cases hl.child.symm.trans hq
      exact hknown ⟨p,hl.parent,hl.workflow.symm⟩
    · exact hknown (hg.parent k q hq a ha)
  · rintro a b ⟨q',hq',hb⟩
    obtain ⟨q,hq,hlinked⟩ := hback hq'
    have hchild : g.IsChild a b ∨ a = p.invocationId ∧ b = c.invocationId := by
      rw [hlinked.children] at hb
      split_ifs at hb with ha
      · rcases Finset.mem_insert.mp hb with hb | hb
        · exact .inr ⟨ha,hb⟩
        · exact .inl ⟨q,hq,hb⟩
      · exact .inl ⟨q,hq,hb⟩
    rcases hchild with hchild | ⟨rfl,rfl⟩
    · obtain ⟨z,hz,hza⟩ := hg.child a b hchild
      obtain ⟨z',hz',hlinked'⟩ := hkeep hz
      refine ⟨z',hz',?_⟩
      rw [hlinked'.parent]
      split_ifs with hbc
      · -- A listed child that is linked again already has this parent.
        subst hbc
        cases hl.child.symm.trans hz
        rcases hl.free with hnone | hsame
        · simp [hnone] at hza
        · exact hsame.symm.trans hza
      · exact hza
    · obtain ⟨z',hz',hlinked'⟩ := hkeep hl.child
      exact ⟨z',hz',by rw [hlinked'.parent,if_pos rfl]⟩
  · intro k q' hq'
    obtain ⟨q,hq,hlinked⟩ := hback hq'
    rw [hlinked.children]
    refine hlinked.blocking.trans ?_
    split_ifs
    · exact Finset.insert_subset_insert _ (hg.blocking k q hq)
    · exact hg.blocking k q hq
  · intro k q' hq'
    obtain ⟨q,hq,hlinked⟩ := hback hq'
    rw [hlinked.workflowId]
    exact hg.enrolled k q hq
  · intro k q' hq'
    obtain ⟨q,hq,hlinked⟩ := hback hq'
    rw [hlinked.contextId]
    exact hg.placed k q hq

theorem Family.write (hg : g.Family) (hw : Write g g') : g'.Family := by
  cases hw with
  | edit ids f hf => exact hg.edit hf
  | touch c x y hx hy =>
    refine hg.of_lists rfl (fun _ x hx => ⟨x,hx,subset_rfl⟩) fun d z hz => ?_
    rw [Dict.get_insert]
    split_ifs with hd
    · subst hd
      cases hx.symm.trans hz
      exact ⟨y,rfl,hy.invocationIds⟩
    · exact ⟨z,hz,subset_rfl⟩
  | start x hnew =>
    refine hg.of_lists rfl (fun w z hz => ?_) fun _ x hx => ⟨x,hx,subset_rfl⟩
    rw [Dict.get_insert,if_neg]
    · exact ⟨z,hz,subset_rfl⟩
    · rintro rfl
      exact hnew ((Dict.mem_iff_get _ _).mpr ⟨z,hz⟩)
  | close w x y hx _ hsame =>
    refine hg.of_lists rfl (fun v z hz => ?_) fun _ x hx => ⟨x,hx,subset_rfl⟩
    rw [Dict.get_insert]
    split_ifs with hv
    · subst hv
      cases hx.symm.trans hz
      exact ⟨y,rfl,hsame ▸ subset_rfl⟩
    · exact ⟨z,hz,subset_rfl⟩
  | enter r x y hr => exact hg.enter hr
  | link e p c mode hl => exact hg.link mode hl
  | message e s t => exact hg.of_eq rfl rfl rfl
  | plan q hq => exact hg.of_eq rfl rfl rfl
  | rejoin j q q' hq hkept => exact hg.of_eq rfl rfl rfl
  | commit e => exact hg.of_eq rfl rfl rfl

theorem start_family (strict : Bool) : (start strict).Family where
  acyclic a hpath := by
    obtain ⟨b,⟨r,hr,-⟩,-⟩ := TransGen.head'_iff.mp hpath
    simp [start] at hr
  parent k r hr := by simp [start] at hr
  child a b hab := by
    obtain ⟨r,hr,-⟩ := hab
    simp [start] at hr
  blocking k r hr := by simp [start] at hr
  enrolled k r hr := by simp [start] at hr
  placed k r hr := by simp [start] at hr

theorem run_family (strict : Bool) (events : List RuntimeEvent) :
    ((start strict).run events).Family :=
  run_of_writes (fun _ _ hg hw => hg.write hw) strict (start_family strict) events

/-! ## Walking over children -/

theorem edge_pushedChildren {order : SetOrder} {a b : String} :
    Walk.Edge (g.pushedChildren order) a b ↔ g.IsChild a b := by
  unfold Walk.Edge pushedChildren IsChild
  cases g.invocations[a]? with
  | none => simp
  | some r => simp [order.mem]

theorem isSome_pushedChildren {order : SetOrder} {a : String} :
    (g.pushedChildren order a).isSome ↔ a ∈ g.invocations := by
  rw [pushedChildren,Option.isSome_map,Dict.mem_iff_get,Option.isSome_iff_exists]

theorem width_pushedChildren (order : SetOrder) (a : String) :
    Walk.width (g.pushedChildren order) a =
      (g.invocations[a]?.map fun r => r.childInvocationIds.card).getD 0 := by
  unfold Walk.width pushedChildren
  cases g.invocations[a]? with
  | none => rfl
  | some r => simp [order.length]

theorem weight_le_childCount (order : SetOrder) (visited : List String) :
    Walk.weight (g.pushedChildren order) g.invocations.keySet visited ≤ g.childCount := by
  have hle : Walk.weight (g.pushedChildren order) g.invocations.keySet visited ≤
      ∑ a ∈ g.invocations.keySet, Walk.width (g.pushedChildren order) a :=
    Finset.sum_le_sum_of_subset (Finset.filter_subset _ _)
  refine hle.trans ?_
  rw [Dict.sum_keySet,childCount,Dict.vals,List.map_map]
  apply List.sum_le_sum
  rintro ⟨a,r⟩ hr
  rw [width_pushedChildren,Std.ExtTreeMap.mem_toList_iff_getElem?_eq_some.mp hr]
  exact le_rfl

theorem width_domain_pushedChildren {order : SetOrder} (a : String)
    (ha : Walk.width (g.pushedChildren order) a ≠ 0) : a ∈ g.invocations.keySet := by
  rw [Dict.mem_keySet,Dict.mem_iff_get]
  rw [width_pushedChildren] at ha
  cases hget : g.invocations[a]? with
  | none => simp [hget] at ha
  | some q => exact ⟨q,rfl⟩

/-- The walk meets exactly the live invocations below, each once. -/
theorem activeDescendants_spec (hg : g.Family) (order : SetOrder) (hr : g.invocations[i]? = some r) :
    ∃ rs, g.activeDescendants order i = .ok rs ∧ (g.WellFormed → rs.Nodup) ∧
      ∀ q, q ∈ rs ↔ q.state.terminal = false ∧
        ∃ a, TransGen g.IsChild i a ∧ g.invocations[a]? = some q := by
  have hchild {a b : String} (hab : g.IsChild a b) : b ∈ g.invocations := by
    obtain ⟨q,hq,-⟩ := hg.child a b hab
    exact mem_of_get hq
  have hpush : g.pushedChildren order i = some (order.list r.childInvocationIds).reverse := by
    simp [pushedChildren,hr]
  set stack := (order.list r.childInvocationIds).reverse with hstack
  have hroot (a : String) : a ∈ stack ↔ g.IsChild i a := by
    rw [hstack,List.mem_reverse,order.mem]
    exact ⟨fun ha => ⟨r,hr,ha⟩,fun ⟨q,hq,ha⟩ => by cases hr.symm.trans hq; exact ha⟩
  set trace := Walk.explore (g.pushedChildren order) (g.childCount + stack.length) stack {} with htrace
  have hmissed : trace.missed = [] := by
    refine Walk.explore_missed_eq_nil (fun a b hab => ?_) rfl fun a ha => ?_
    · exact isSome_pushedChildren.mpr (hchild (edge_pushedChildren.mp hab))
    · exact isSome_pushedChildren.mpr (hchild ((hroot a).mp ha))
  obtain ⟨hfirst,hclosed⟩ := Walk.explore_complete width_domain_pushedChildren
    (g.childCount + stack.length) stack {} (by simpa using weight_le_childCount order [])
    (fun a ha => absurd ha (by simp))
  have hvisited (a : String) : a ∈ trace.visited ↔ TransGen g.IsChild i a := by
    constructor
    · intro ha
      rcases Walk.explore_sound ha with h | ⟨-,b,hb,hpath⟩
      · simp at h
      · have hpath' : ReflTransGen g.IsChild b a :=
          ReflTransGen.mono (fun x y => edge_pushedChildren.mp) b a hpath
        exact TransGen.head' ((hroot b).mp hb) hpath'
    · intro hpath
      obtain ⟨b,hb,hrest⟩ := TransGen.head'_iff.mp hpath
      refine hclosed.reaches (hfirst b ((hroot b).mpr hb) (isSome_pushedChildren.mpr (hchild hb))) ?_
      have hboth (x y : String) (hxy : g.IsChild x y) : Walk.Edge (g.pushedChildren order) x y ∧
          (g.pushedChildren order y).isSome :=
        ⟨edge_pushedChildren.mpr hxy,isSome_pushedChildren.mpr (hchild hxy)⟩
      exact ReflTransGen.mono hboth b a hrest
  refine ⟨trace.visited.filterMap fun id => g.invocations[id]?.filter (!·.state.terminal),?_,?_,?_⟩
  · simp only [activeDescendants,hpush]
    rw [← htrace,hmissed]
  · intro hwf
    refine List.Nodup.filterMap (fun a b q ha hb => ?_) (Walk.visited_nodup List.nodup_nil)
    rw [Option.mem_def,Option.filter_eq_some_iff] at ha hb
    exact (hwf.keyed a q ha.1).symm.trans (hwf.keyed b q hb.1)
  · intro q
    simp only [List.mem_filterMap,Option.filter_eq_some_iff,hvisited]
    constructor
    · rintro ⟨a,hpath,ha,hlive⟩
      exact ⟨by simpa using hlive,a,hpath,ha⟩
    · rintro ⟨hlive,a,hpath,ha⟩
      exact ⟨a,hpath,ha,by simpa using hlive⟩

/-! ## The forest of a reachable graph -/

/-- The parents are acyclic and stay in one workflow, listed children exist and point back, every
invocation is listed, and the walks over parents and children return. -/
structure InvocationForest (g : RuntimeCausalContextGraph) : Prop where
  acyclic : Acyclic g.IsParent
  workflow : ∀ a b, g.IsParent a b → ∃ p q : InvocationRecord, g.invocations[a]? = some p ∧
    g.invocations[b]? = some q ∧ p.workflowId = q.workflowId
  child : ∀ (a : String) (r : InvocationRecord), g.invocations[a]? = some r →
    ∀ b, b ∈ r.childInvocationIds ∨ b ∈ r.blockingChildIds → g.IsParent b a
  listed : ∀ (a : String) (r : InvocationRecord), g.invocations[a]? = some r →
    (∃ w : WorkflowRecord, g.workflows[r.workflowId]? = some w ∧ a ∈ w.invocationIds) ∧
      ∃ c : ContextRecord, g.contexts[r.contextId]? = some c ∧ a ∈ c.invocationIds
  isAncestor : ∀ a b, ∃ answer, g.isAncestor a b = .ok answer ∧
    (answer = true ↔ TransGen g.IsParent b a)
  ancestors : ∀ (a : String) (r : InvocationRecord), g.invocations[a]? = some r →
    ∃ rs, g.ancestors a = .ok rs ∧
      ∀ q, q ∈ rs ↔ ∃ b, TransGen g.IsParent a b ∧ g.invocations[b]? = some q
  activeDescendants : ∀ (order : SetOrder) (a : String) (r : InvocationRecord),
    g.invocations[a]? = some r → ∃ rs, g.activeDescendants order a = .ok rs ∧ rs.Nodup ∧
      ∀ q, q ∈ rs ↔ q.state.terminal = false ∧
        ∃ b, TransGen g.IsChild a b ∧ g.invocations[b]? = some q

theorem Family.forest (hg : g.Family) (hwf : g.WellFormed) : g.InvocationForest where
  acyclic := hg.acyclic
  workflow a b hab := by
    obtain ⟨p,hp,hb⟩ := hab
    obtain ⟨q,hq,hw⟩ := hg.parent a p hp b hb
    exact ⟨p,q,hp,hq,hw.symm⟩
  child a r hr b hb := by
    refine hg.child a b ⟨r,hr,?_⟩
    rcases hb with hb | hb
    · exact hb
    · exact hg.blocking a r hr hb
  listed a r hr := ⟨hg.enrolled a r hr,hg.placed a r hr⟩
  isAncestor a b := isAncestor_spec hg a b
  ancestors a r hr := ancestors_spec hg hr
  activeDescendants order a r hr := by
    obtain ⟨rs,hrs,hnodup,hmem⟩ := activeDescendants_spec hg order hr
    exact ⟨rs,hrs,hnodup hwf,hmem⟩

/-- Every reachable graph is a forest of invocations, and no context's epoch ever goes back. -/
theorem run_invocationForest (strict : Bool) (before after : List RuntimeEvent) :
    ((start strict).run before).InvocationForest ∧
      ∀ (c : String) (x : ContextRecord), ((start strict).run before).contexts[c]? = some x →
        ∃ y : ContextRecord, ((start strict).run (before ++ after)).contexts[c]? = some y ∧
          x.epoch ≤ y.epoch := by
  refine ⟨(run_family strict before).forest (run_wellFormed strict before),fun c x hx => ?_⟩
  obtain ⟨y,hy,-,hle⟩ := (run_grown ((start strict).run before) after).stay c x hx
  refine ⟨y,?_,hle⟩
  rw [run,List.foldl_append]
  exact hy

end RuntimeCausalContextGraph
end BeliefKV
