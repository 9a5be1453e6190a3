import BeliefKV.Controller.Frames
import BeliefKV.Graph.Epochs
import BeliefKV.Policy.Release

/-! The epochs of the contexts in the graph and in the page index. An event moves them in the
graph; the index follows for the contexts that its delta names. -/
namespace BeliefKV.BeliefKVController
open Call Run RuntimeCausalContextGraph PageOwnershipIndex
variable {s t : BeliefKVController} {e : RuntimeEvent} {c : String}

/-! ## Following the graph -/

/-- The index is behind the graph for the contexts that are due, and level with it for the others. -/
structure Lags (s : BeliefKVController) (due : Set String) : Prop where
  wellFormed : s.graph.WellFormed
  named : ∀ (c : String) (x : ContextRecord), s.graph.contexts[c]? = some x →
    c ≠ "" ∧ x.workflowId ≠ ""
  listed : ∀ (c : String) (epoch : ℤ), s.pages.contextEpoch[c]? = some epoch →
    ∃ x : ContextRecord, s.graph.contexts[c]? = some x ∧ epoch ≤ x.epoch ∧
      (c ∉ due → epoch = x.epoch)
  flows : ∀ c ∈ s.pages.contextWorkflow, c ∈ s.pages.contextEpoch

/-- The epochs are the same. -/
abbrev Level (s : BeliefKVController) : Prop := s.Lags ∅

variable {due : Set String}

theorem Lags.mono {due' : Set String} (h : s.Lags due) (hsub : due ⊆ due') : s.Lags due' := by
  refine ⟨h.wellFormed,h.named,fun c epoch hc => ?_,h.flows⟩
  obtain ⟨x,hx,hle,heq⟩ := h.listed c epoch hc
  exact ⟨x,hx,hle,fun hdue => heq fun hmem => hdue (hsub hmem)⟩

theorem Lags.same (h : s.Lags due) (hst : SameLists s t) : t.Lags due := by
  have hepoch : t.pages.contextEpoch = s.pages.contextEpoch := congrArg Prod.fst hst.registry
  have hflow : t.pages.contextWorkflow = s.pages.contextWorkflow := congrArg Prod.snd hst.registry
  refine ⟨?_,?_,?_,?_⟩
  · rw [hst.graph]
    exact h.wellFormed
  · rw [hst.graph]
    exact h.named
  · rw [hepoch,hst.graph]
    exact h.listed
  · rw [hepoch,hflow]
    exact h.flows

/-- The graph moves on, and the contexts that changed become due. -/
theorem Lags.moved (h : s.Level) {g : RuntimeCausalContextGraph} (hg : g.WellFormed)
    (hgrown : Grown s.graph g)
    (hdue : ∀ c : String, g.contexts[c]? ≠ s.graph.contexts[c]? → c ∈ due) :
    Lags { s with graph := g } due := by
  refine ⟨hg,fun c y hy => ?_,fun c epoch hc => ?_,h.flows⟩
  · rcases hgrown.fresh c y hy with hold | hnew
    · obtain ⟨x,hx⟩ := (Dict.mem_iff_get _ _).mp hold
      obtain ⟨z,hz,hw,-⟩ := hgrown.stay c x hx
      cases hy.symm.trans hz
      rw [hw]
      exact h.named c x hx
    · exact hnew
  · obtain ⟨x,hx,hle,heq⟩ := h.listed c epoch hc
    obtain ⟨y,hy,-,hxy⟩ := hgrown.stay c x hx
    refine ⟨y,hy,hle.trans hxy,fun hnot => ?_⟩
    have hkept : g.contexts[c]? = s.graph.contexts[c]? := by
      by_contra hne
      exact hnot (hdue c hne)
    cases hy.symm.trans (hkept.trans hx)
    exact heq (Set.notMem_empty c)

/-- What following a context does to an index that is not ahead of the graph. -/
theorem followEpoch_ok {pages : PageOwnershipIndex} {x : ContextRecord} (hc : c ≠ "")
    (hw : x.workflowId ≠ "") (hle : ∀ epoch, pages.contextEpoch[c]? = some epoch → epoch ≤ x.epoch)
    (hflow : c ∈ pages.contextWorkflow → c ∈ pages.contextEpoch) :
    ∃ pages', followEpoch pages c x = .ok pages' ∧
      (∀ a : String, pages'.contextEpoch[a]? =
        if c = a then some x.epoch else pages.contextEpoch[a]?) ∧
      (∀ a ∈ pages'.contextWorkflow, a = c ∨ a ∈ pages.contextWorkflow) ∧
      ∀ a, pages'.pagesOf a = pages.pagesOf a := by
  unfold followEpoch
  cases hepoch : pages.contextEpoch[c]? with
  | none =>
    have hknown : pages.hasContext c = false := by
      rw [hasContext,Std.ExtTreeMap.contains_eq_isSome_getElem?]
      simp [hepoch]
    have hnoflow : pages.contextWorkflow[c]? = none := by
      rw [← Dict.notMem_iff_get]
      intro hmem
      obtain ⟨epoch,he⟩ := (Dict.mem_iff_get _ _).mp (hflow hmem)
      simp [hepoch] at he
    rw [if_pos hknown,registerContext_new hc hw hepoch hnoflow]
    refine ⟨_,rfl,fun a => Dict.get_insert _ _ _ _,fun a ha => ?_,fun a => ?_⟩
    · obtain ⟨w,hget⟩ := (Dict.mem_iff_get _ _).mp ha
      change (pages.contextWorkflow.insert c x.workflowId)[a]? = some w at hget
      rw [Dict.get_insert] at hget
      split_ifs at hget with hac
      · exact .inl hac.symm
      · exact .inr ((Dict.mem_iff_get _ _).mpr ⟨w,hget⟩)
    · exact pagesOf_enrollContext pages c a x.workflowId x.epoch
  | some cur =>
    have hknown : pages.hasContext c = true := by
      rw [hasContext,Std.ExtTreeMap.contains_eq_isSome_getElem?]
      simp [hepoch]
    have hread : pages.contextEpochOf c = .ok cur := by simp [contextEpochOf,hepoch]
    rw [if_neg (by simp [hknown]),hread]
    change ∃ pages', (if cur ≠ x.epoch then _ else _) = _ ∧ _
    by_cases hne : cur ≠ x.epoch
    · have hlt : cur < x.epoch := lt_of_le_of_ne (hle cur hepoch) hne
      rw [if_pos hne,updateContextEpoch_later hepoch hlt]
      exact ⟨_,rfl,fun a => Dict.get_insert _ _ _ _,fun a ha => .inr ha,fun a => rfl⟩
    · rw [if_neg hne]
      refine ⟨pages,rfl,fun a => ?_,fun a ha => .inr ha,fun a => rfl⟩
      split_ifs with hac
      · rw [← hac,hepoch,not_not.mp hne]
      · rfl

theorem registry_releaseCompacted (s : BeliefKVController) (e : RuntimeEvent) (c : String) :
    (s.releaseCompacted e c).registry = s.pages.registry := by
  unfold releaseCompacted
  split_ifs
  · exact registry_unbindContext c
  · rfl

/-- A context of the graph is followed: it is level afterwards, and the pages it keeps are those
that the compaction leaves. -/
theorem Lags.followContext (h : s.Lags due) (hc : c ∈ s.graph.contexts) :
    (s.followContext e c).1.Lags (due \ {c}) ∧ (s.followContext e c).2 = .ok () ∧
      SameView s (s.followContext e c).1 ∧
      (∃ x : ContextRecord, s.graph.contexts[c]? = some x ∧
        (s.followContext e c).1.pages.contextEpoch[c]? = some x.epoch) ∧
      ∀ a, (s.followContext e c).1.pages.pagesOf a = (s.releaseCompacted e c).pagesOf a := by
  obtain ⟨x,hx⟩ := (Dict.mem_iff_get _ _).mp hc
  obtain ⟨hne,hw⟩ := h.named c x hx
  have hreg := registry_releaseCompacted s e c
  have hepoch : (s.releaseCompacted e c).contextEpoch = s.pages.contextEpoch :=
    congrArg Prod.fst hreg
  have hflow : (s.releaseCompacted e c).contextWorkflow = s.pages.contextWorkflow :=
    congrArg Prod.snd hreg
  have hle (epoch : ℤ) (he : (s.releaseCompacted e c).contextEpoch[c]? = some epoch) :
      epoch ≤ x.epoch := by
    rw [hepoch] at he
    obtain ⟨y,hy,hyle,-⟩ := h.listed c epoch he
    cases hx.symm.trans hy
    exact hyle
  obtain ⟨pages',hok,hget,hflows,hpages⟩ := followEpoch_ok hne hw hle
    (by rw [hepoch,hflow]; exact h.flows c)
  have hcall : s.followContext e c = ({ s with
      pages := pages', guard := s.guard.invalidateContext c x.epoch },.ok ()) := by
    unfold BeliefKVController.followContext
    rw [hx]
    dsimp only
    rw [hok]
    rfl
  rw [hcall]
  refine ⟨⟨h.wellFormed,h.named,fun a epoch ha => ?_,fun a ha => ?_⟩,rfl,⟨rfl,rfl⟩,⟨x,hx,?_⟩,hpages⟩
  · rw [hget,hepoch] at ha
    split_ifs at ha with hac
    · cases ha
      exact ⟨x,hac ▸ hx,le_rfl,fun _ => rfl⟩
    · obtain ⟨y,hy,hyle,heq⟩ := h.listed a epoch ha
      exact ⟨y,hy,hyle,fun hnot => heq fun hdue => hnot ⟨hdue,fun hmem => hac hmem.symm⟩⟩
  · have hac := hflows a ha
    rw [hflow] at hac
    rw [Dict.mem_iff_get]
    rcases hac with rfl | hold
    · exact ⟨x.epoch,by rw [hget,if_pos rfl]⟩
    · obtain ⟨epoch,he⟩ := (Dict.mem_iff_get _ _).mp (h.flows a hold)
      by_cases hca : c = a
      · exact ⟨x.epoch,by rw [hget,if_pos hca]⟩
      · exact ⟨epoch,by rw [hget,if_neg hca,hepoch,he]⟩
  · rw [hget,if_pos rfl]

theorem Lags.followAll (h : s.Lags due) (cs : List String) (hknown : ∀ c ∈ cs, c ∈ s.graph.contexts) :
    let call := forEach (fun s c => s.followContext e c) s cs
    call.1.Lags (due \ {c | c ∈ cs}) ∧ call.2 = .ok () ∧ SameView s call.1 := by
  induction cs generalizing s due with
  | nil => exact ⟨h.mono fun c hc => ⟨hc,List.not_mem_nil⟩,rfl,⟨rfl,rfl⟩⟩
  | cons c cs ih =>
    obtain ⟨hlags,hok,hview,-,-⟩ := h.followContext (e := e) (hknown c (by simp))
    obtain ⟨hrest,hrok,hrview⟩ := ih hlags (by
      rw [hview.graph]
      exact fun a ha => hknown a (by simp [ha]))
    have hcall : forEach (fun s c => s.followContext e c) s (c :: cs) =
        forEach (fun s c => s.followContext e c) (s.followContext e c).1 cs := by
      rw [forEach,show s.followContext e c = ((s.followContext e c).1,.ok ()) from Prod.ext rfl hok,
        andThen_ok]
    rw [hcall]
    refine ⟨hrest.mono fun a ha => ?_,hrok,hview.trans hrview⟩
    exact ⟨ha.1.1,fun hmem => (List.mem_cons.mp hmem).elim ha.1.2 ha.2⟩

/-- The delta names contexts and invocations that the graph knows. -/
def Known (s : BeliefKVController) (delta : GraphDelta) : Prop :=
  (∀ c ∈ delta.changedContexts, c ∈ s.graph.contexts) ∧
    ∀ i ∈ delta.awakenedInvocations, i ∈ s.graph.invocations

theorem Known.same {delta : GraphDelta} (h : s.Known delta) (hg : t.graph = s.graph) :
    t.Known delta := by
  unfold Known
  rw [hg]
  exact h

theorem followWakes_ok {is : List String} (hknown : ∀ i ∈ is, i ∈ s.graph.invocations) :
    (forEach followWake s is).2 = .ok () := by
  refine (forEach_ok (I := fun t : BeliefKVController => t.graph = s.graph)
    (fun t i hi ht => ?_) rfl).2
  obtain ⟨r,hr⟩ := (Dict.mem_iff_get _ _).mp (hknown i hi)
  unfold followWake
  rw [ht,hr]
  exact ⟨(Aside.cancelShadowForContext t r.contextId).graph.trans ht,rfl⟩

theorem observed_ok (hread : s.predictorEnabled = true → (observeEvent e).isOk = true) :
    (if s.predictorEnabled then observeEvent e else .ok ()) = .ok () := by
  split_ifs with hp
  · have hok := hread hp
    cases ho : observeEvent e with
    | ok u => rfl
    | error err => simp [ho,Except.isOk,Except.toBool] at hok
  · rfl

/-- The work after an event whose reads do not raise. -/
theorem Lags.after (h : s.Lags due) {delta : GraphDelta} (hknown : s.Known delta)
    (hread : s.predictorEnabled = true → (observeEvent e).isOk = true) :
    (s.afterRuntimeEvent e delta).1.Lags (due \ {c | c ∈ delta.changedContexts}) ∧
      (s.afterRuntimeEvent e delta).2 = .ok () ∧ SameView s (s.afterRuntimeEvent e delta).1 := by
  obtain ⟨hlags,hok,hview⟩ := h.followAll (e := e) (Dict.sorted delta.changedContexts)
    fun c hc => hknown.1 c ((Dict.mem_sorted _ _).mp hc)
  have hcall : s.afterRuntimeEvent e delta = forEach followWake
      (forEach (fun s c => s.followContext e c) s (Dict.sorted delta.changedContexts)).1
      (Dict.sorted delta.awakenedInvocations) := by
    unfold afterRuntimeEvent
    rw [observed_ok hread,andThen_ok,show forEach (fun s c => s.followContext e c) s
      (Dict.sorted delta.changedContexts) = ((forEach (fun s c => s.followContext e c) s
        (Dict.sorted delta.changedContexts)).1,.ok ()) from Prod.ext rfl hok,andThen_ok]
  have hsame := Aside.followWakes
    (forEach (fun s c => s.followContext e c) s (Dict.sorted delta.changedContexts)).1
    (Dict.sorted delta.awakenedInvocations)
  rw [hcall]
  have hfewer : due \ {c | c ∈ Dict.sorted delta.changedContexts} ⊆
      due \ {c | c ∈ delta.changedContexts} :=
    fun c hc => ⟨hc.1,fun hmem => hc.2 ((Dict.mem_sorted _ _).mpr hmem)⟩
  refine ⟨(hlags.mono hfewer).same (.aside hsame),?_,hview.trans hsame.toSameView⟩
  refine followWakes_ok fun i hi => ?_
  rw [hview.graph]
  exact hknown.2 i ((Dict.mem_sorted _ _).mp hi)

/-- When nothing is due, it does not matter where the work after an event stops. -/
theorem Lags.after_level (h : s.Level) {delta : GraphDelta} (hknown : s.Known delta) :
    (s.afterRuntimeEvent e delta).1.Level ∧ SameView s (s.afterRuntimeEvent e delta).1 := by
  by_cases hread : s.predictorEnabled = true → (observeEvent e).isOk = true
  · obtain ⟨hlags,-,hview⟩ := h.after hknown hread
    exact ⟨hlags.mono fun c hc => hc.1,hview⟩
  · rw [Classical.not_imp] at hread
    have hcall : ∃ err, s.afterRuntimeEvent e delta = (s,.error err) := by
      unfold afterRuntimeEvent
      rw [if_pos hread.1]
      cases ho : observeEvent e with
      | ok u => exact absurd (by rw [ho]; rfl) hread.2
      | error err => exact ⟨err,rfl⟩
    obtain ⟨err,hcall⟩ := hcall
    rw [hcall]
    exact ⟨h,rfl,rfl⟩

/-! ## One event -/

/-- The rest of an event, once the graph accepted it. -/
def finishEvent (s : BeliefKVController) (e : RuntimeEvent) (delta : GraphDelta) :
    BeliefKVController × Except Raised GraphDelta :=
  andThen ({ s with consumers := (s.consumers.apply s.graph e).1 },(s.consumers.apply s.graph e).2)
    fun s _ => andThen (s.afterRuntimeEvent e delta) fun s _ =>
      andThen (s.observeActionFrontierEvent e) fun s _ => (s.appendRuntimeEvents [e],.ok delta)

theorem processRuntimeEvent_accepted {delta : GraphDelta} (hok : (s.graph.apply e).result = .ok delta) :
    s.processRuntimeEvent e = finishEvent { s with graph := s.graph.step e } e delta := by
  unfold processRuntimeEvent
  dsimp only
  rw [hok]
  rfl

theorem processRuntimeEvent_rejected {err : Raised} (herr : (s.graph.apply e).result = .error err) :
    s.processRuntimeEvent e = ({ s with graph := s.graph.step e },.error err) := by
  unfold processRuntimeEvent
  dsimp only
  rw [herr]
  rfl

theorem finishEvent_observed {delta : GraphDelta} {changed : ConsumerIndexDelta}
    (hok : (s.consumers.apply s.graph e).2 = .ok changed) : s.finishEvent e delta =
      andThen (afterRuntimeEvent { s with consumers := (s.consumers.apply s.graph e).1 } e delta)
        fun s _ => andThen (s.observeActionFrontierEvent e) fun s _ =>
          (s.appendRuntimeEvents [e],.ok delta) := by
  rw [finishEvent,hok,andThen_ok]

theorem Aside.closing (s : BeliefKVController) (e : RuntimeEvent) (delta : GraphDelta) :
    Aside s (andThen (s.observeActionFrontierEvent e) fun s _ =>
      ((s.appendRuntimeEvents [e],.ok delta) : BeliefKVController × Except Raised GraphDelta)).1 :=
  andThen_rel (R := Aside) .trans (.observeActionFrontierEvent s e)
    fun _ _ => .appendRuntimeEvents _ _

theorem Lags.finishEvent (h : s.Lags due) {delta : GraphDelta} (hknown : s.Known delta)
    (hdue : due ⊆ {c | c ∈ delta.changedContexts})
    (hgoes : due = ∅ ∨ (s.consumers.apply s.graph e).2.isOk = true ∧
      (s.predictorEnabled = true → (observeEvent e).isOk = true)) :
    (s.finishEvent e delta).1.Level := by
  have hside : Lags { s with consumers := (s.consumers.apply s.graph e).1 } due := h.same ⟨⟨rfl,rfl⟩,rfl⟩
  cases hobs : (s.consumers.apply s.graph e).2 with
  | error err =>
    rw [BeliefKVController.finishEvent,hobs]
    rcases hgoes with rfl | hgoes
    · exact hside
    · simp [hobs,Except.isOk,Except.toBool] at hgoes
  | ok changed =>
    rw [finishEvent_observed hobs]
    have hlevel : (afterRuntimeEvent { s with consumers := (s.consumers.apply s.graph e).1 } e
        delta).1.Level := by
      rcases hgoes with rfl | hgoes
      · exact (hside.after_level hknown).1
      · obtain ⟨hlags,-,-⟩ := hside.after (e := e) hknown hgoes.2
        exact hlags.mono fun c hc => hc.2 (hdue hc.1)
    exact andThen_cases (P := Level) hlevel fun _ => hlevel.same (.aside (.closing _ e delta))

/-- The event does not raise where the index would stay behind. -/
def FollowsEvent (s : BeliefKVController) (e : RuntimeEvent) : Prop :=
  (e.kind = .llmSubmit → e.attributes.messagesConsumed.isOk = true) ∧
    (e.kind.movesContexts = true → s.graph.Accepts e →
      (s.consumers.apply (s.graph.step e) e).2.isOk = true ∧
        (s.predictorEnabled = true → (observeEvent e).isOk = true))

/-- The contexts an event makes due. -/
def dueOf (e : RuntimeEvent) (delta : GraphDelta) : Set String :=
  {c | c ∈ delta.changedContexts ∧ e.kind.movesContexts = true}

theorem Lags.apply (h : s.Level) {delta : GraphDelta} (hok : (s.graph.apply e).result = .ok delta) :
    Lags { s with graph := s.graph.step e } (dueOf e delta) ∧
      Known { s with graph := s.graph.step e } delta :=
  ⟨h.moved (apply_wellFormed h.wellFormed e) (step_grown _ e) (apply_names hok),
    apply_grounded h.wellFormed hok⟩

theorem Lags.event (h : s.Level) (hf : s.FollowsEvent e) : (s.processRuntimeEvent e).1.Level := by
  cases hres : (s.graph.apply e).result with
  | error err =>
    rw [processRuntimeEvent_rejected hres]
    have hrej : ¬ s.graph.Accepts e := by
      unfold Accepts
      rw [hres]
      exact Bool.false_ne_true
    refine h.moved (apply_wellFormed h.wellFormed e) (step_grown _ e) fun c hne => ?_
    rw [step_rejected hf.1 hrej] at hne
    exact absurd rfl hne
  | ok delta =>
    rw [processRuntimeEvent_accepted hres]
    obtain ⟨hlags,hknown⟩ := h.apply hres
    refine hlags.finishEvent hknown (fun c hc => hc.1) ?_
    cases hk : e.kind.movesContexts with
    | false => exact .inl (Set.eq_empty_of_forall_notMem fun c hc => by simp [dueOf,hk] at hc)
    | true =>
      refine .inr (hf.2 hk ?_)
      unfold Accepts
      rw [hres]
      rfl

/-! ## Batches -/

/-- The reads of the action-frontier observer raise nothing, or what it drops. -/
def Readable (e : RuntimeEvent) : Prop :=
  e.kind = .llmResult ∨ e.kind = .structuredAction →
    ∀ err, readResult e = .error err → (∃ k, err = .keyError k) ∨ ∃ m, err = .valueError m

theorem Readable.observed (h : Readable e) (s : BeliefKVController) :
    (s.observeActionFrontierEvent e).2 = .ok () := by
  have hraise (err : Raised) (herr : (s.observeRuntimeEvent e).2 = .error err) :
      (∃ k, err = .keyError k) ∨ ∃ m, err = .valueError m := by
    unfold observeRuntimeEvent at herr
    split_ifs at herr
    split at herr
    · split_ifs at herr
    · rename_i hk
      split_ifs at herr
      exact h (.inl hk) err herr
    · rename_i hk
      split_ifs at herr
      exact h (.inr hk) err herr
    · cases herr
  unfold observeActionFrontierEvent
  cases hobs : s.observeRuntimeEvent e with
  | mk t result =>
    cases result with
    | ok u => rfl
    | error err =>
      rcases hraise err (by rw [hobs]) with ⟨k,rfl⟩ | ⟨m,rfl⟩
      · rfl
      · rfl

theorem Lags.followEvents (h : s.Lags due) (pairs : List (RuntimeEvent × GraphDelta))
    (hknown : ∀ pair ∈ pairs, s.Known pair.2)
    (hread : ∀ pair ∈ pairs, (s.predictorEnabled = true → (observeEvent pair.1).isOk = true) ∧
      Readable pair.1) :
    (s.followEvents pairs).1.Lags (due \ {c | ∃ pair ∈ pairs, c ∈ pair.2.changedContexts}) ∧
      (s.followEvents pairs).2 = .ok () := by
  induction pairs generalizing s due with
  | nil => exact ⟨h.mono fun c hc => ⟨hc,by simp⟩,rfl⟩
  | cons pair pairs ih =>
    obtain ⟨hp,hobs⟩ := hread pair (by simp)
    obtain ⟨hlags,hok,hview⟩ := h.after (hknown pair (by simp)) hp
    have hsame := Aside.observeActionFrontierEvent (s.afterRuntimeEvent pair.1 pair.2).1 pair.1
    have hall := hview.trans hsame.toSameView
    have hcall : s.followEvents (pair :: pairs) = BeliefKVController.followEvents
        ((s.afterRuntimeEvent pair.1 pair.2).1.observeActionFrontierEvent pair.1).1 pairs := by
      rw [BeliefKVController.followEvents,forEach,show s.afterRuntimeEvent pair.1 pair.2 =
        ((s.afterRuntimeEvent pair.1 pair.2).1,.ok ()) from Prod.ext rfl hok,andThen_ok,
        show (s.afterRuntimeEvent pair.1 pair.2).1.observeActionFrontierEvent pair.1 =
          (((s.afterRuntimeEvent pair.1 pair.2).1.observeActionFrontierEvent pair.1).1,.ok ())
          from Prod.ext rfl (hobs.observed _),andThen_ok]
      rfl
    obtain ⟨hrest,hrok⟩ := ih (hlags.same (.aside hsame))
      (fun q hq => (hknown q (by simp [hq])).same hall.graph)
      (fun q hq => by rw [hall.predictor]; exact hread q (by simp [hq]))
    rw [hcall]
    refine ⟨hrest.mono fun c hc => ⟨hc.1.1,?_⟩,hrok⟩
    rintro ⟨q,hq,hmem⟩
    rcases List.mem_cons.mp hq with rfl | hq
    · exact hc.1.2 hmem
    · exact hc.2 ⟨q,hq,hmem⟩

theorem Lags.followEvents_level (h : s.Level) (pairs : List (RuntimeEvent × GraphDelta))
    (hknown : ∀ pair ∈ pairs, s.Known pair.2) : (s.followEvents pairs).1.Level := by
  induction pairs generalizing s with
  | nil => exact h
  | cons pair pairs ih =>
    obtain ⟨hlevel,hview⟩ := h.after_level (e := pair.1) (hknown pair (by simp))
    have hsame := Aside.observeActionFrontierEvent (s.afterRuntimeEvent pair.1 pair.2).1 pair.1
    have hall := hview.trans hsame.toSameView
    rw [BeliefKVController.followEvents,forEach]
    refine andThen_cases (P := Level) ?_ fun _ => ?_
    · exact andThen_cases (P := Level) hlevel fun _ => hlevel.same (.aside hsame)
    · have hbody : (andThen (s.afterRuntimeEvent pair.1 pair.2) fun s _ =>
          s.observeActionFrontierEvent pair.1).1.Level ∧ SameView s
          (andThen (s.afterRuntimeEvent pair.1 pair.2) fun s _ =>
            s.observeActionFrontierEvent pair.1).1 :=
        andThen_cases (P := fun t => t.Level ∧ SameView s t) ⟨hlevel,hview⟩
          fun _ => ⟨hlevel.same (.aside hsame),hall⟩
      exact ih hbody.1 fun q hq => (hknown q (by simp [hq])).same hbody.2.graph

theorem applyBatch_accepted {g : RuntimeCausalContextGraph} {events : List RuntimeEvent}
    {deltas : List GraphDelta} (hok : (g.applyAll events).2 = .ok deltas) :
    g.applyBatch events true = (g.run events,.ok deltas) := by
  unfold applyBatch
  rw [show g.applyAll events = (g.run events,.ok deltas) from Prod.ext (applyAll_run hok) hok]

theorem applyBatch_rejected {g : RuntimeCausalContextGraph} {events : List RuntimeEvent}
    {err : Raised} (herr : (g.applyAll events).2 = .error err) :
    g.applyBatch events true = (g,.error err) := by
  unfold applyBatch
  rw [show g.applyAll events = ((g.applyAll events).1,.error err) from Prod.ext rfl herr]
  rfl

/-- The rest of a batch, once the graph accepted it. -/
def finishEvents (s : BeliefKVController) (events : List RuntimeEvent) (deltas : List GraphDelta) :
    BeliefKVController × Except Raised (List GraphDelta) :=
  andThen ({ s with consumers := (s.consumers.applyBatch s.graph events true).1 },
    (s.consumers.applyBatch s.graph events true).2) fun s _ =>
      andThen (s.followEvents (events.zip deltas)) fun s _ =>
        (s.appendRuntimeEvents events,.ok deltas)

/-- The batch does not raise where the index would stay behind. -/
def FollowsEvents (s : BeliefKVController) (events : List RuntimeEvent) : Prop :=
  (∃ e ∈ events, e.kind.movesContexts = true) → (s.graph.applyAll events).2.isOk = true →
    (s.consumers.applyBatch (s.graph.run events) events true).2.isOk = true ∧
      ∀ e ∈ events, (s.predictorEnabled = true → (observeEvent e).isOk = true) ∧ Readable e

theorem Lags.finishEvents (h : s.Lags due) {events : List RuntimeEvent} {deltas : List GraphDelta}
    (hknown : ∀ pair ∈ events.zip deltas, s.Known pair.2)
    (hdue : due ⊆ {c | ∃ pair ∈ events.zip deltas, c ∈ pair.2.changedContexts})
    (hgoes : due = ∅ ∨ (s.consumers.applyBatch s.graph events true).2.isOk = true ∧
      ∀ e ∈ events, (s.predictorEnabled = true → (observeEvent e).isOk = true) ∧ Readable e) :
    (s.finishEvents events deltas).1.Level := by
  have hside : Lags { s with consumers := (s.consumers.applyBatch s.graph events true).1 } due :=
    h.same ⟨⟨rfl,rfl⟩,rfl⟩
  unfold BeliefKVController.finishEvents
  cases hobs : (s.consumers.applyBatch s.graph events true).2 with
  | error err =>
    rcases hgoes with rfl | hgoes
    · exact hside
    · simp [hobs,Except.isOk,Except.toBool] at hgoes
  | ok changed =>
    rw [andThen_ok]
    have hlevel : (BeliefKVController.followEvents { s with
        consumers := (s.consumers.applyBatch s.graph events true).1 } (events.zip deltas)).1.Level := by
      rcases hgoes with rfl | hgoes
      · exact hside.followEvents_level _ hknown
      · obtain ⟨hlags,-⟩ := hside.followEvents (events.zip deltas) hknown
          fun pair hpair => hgoes.2 pair.1 (List.of_mem_zip hpair).1
        exact hlags.mono fun c hc => hc.2 (hdue hc.1)
    exact andThen_cases (P := Level) hlevel fun _ => hlevel.same (.aside (.appendRuntimeEvents _ _))

theorem Lags.events (h : s.Level) {events : List RuntimeEvent} (hf : s.FollowsEvents events) :
    (s.processRuntimeEvents events).1.Level := by
  unfold processRuntimeEvents
  by_cases hnil : events = []
  · rw [if_pos hnil]
    exact h
  rw [if_neg hnil]
  dsimp only
  cases hres : (s.graph.applyAll events).2 with
  | error err =>
    rw [applyBatch_rejected hres]
    exact h
  | ok deltas =>
    rw [applyBatch_accepted hres]
    obtain ⟨hchange,hknown⟩ := applyAll_names h.wellFormed hres
    have hlags := h.moved (run_keeps_wellFormed h.wellFormed events) (run_grown _ events) hchange
    refine hlags.finishEvents hknown (fun c hc => ?_) ?_
    · obtain ⟨pair,hpair,hmem,-⟩ := hc
      exact ⟨pair,hpair,hmem⟩
    · by_cases hk : ∃ e ∈ events, e.kind.movesContexts = true
      · exact .inr (hf hk (by rw [hres]; rfl))
      · refine .inl (Set.eq_empty_of_forall_notMem fun c hc => hk ?_)
        obtain ⟨pair,hpair,-,hmoves⟩ := hc
        exact ⟨pair.1,(List.of_mem_zip hpair).1,hmoves⟩

/-! ## Compaction -/

/-- The context that a compaction with its context id names gives up its pages. -/
theorem Lags.compacted (h : s.Lags due) (hs : s.Steady) (hk : e.kind = .contextCompact)
    (hid : e.contextId = some c) (hc : c ∈ s.graph.contexts) :
    (s.followContext e c).1.pages.pagesOf c = ∅ := by
  obtain ⟨-,-,-,-,hpages⟩ := h.followContext (e := e) hc
  rw [hpages]
  unfold releaseCompacted
  by_cases hknown : s.pages.hasContext c = true
  · rw [if_pos ⟨hk,hid,hknown⟩,pagesOf_unbindContext,if_pos rfl]
  · rw [if_neg fun hall => hknown hall.2.2]
    refine Finset.eq_empty_of_forall_notMem fun p hp => hknown ?_
    exact Std.ExtTreeMap.contains_iff_mem.mpr (hs.coherent.base.pagesOf_known c p hp).1

/-- The pages after an event whose delta names one context. -/
theorem Lags.after_one (h : s.Lags due) {delta : GraphDelta} (hknown : s.Known delta)
    (hone : delta.changedContexts = {c})
    (hread : s.predictorEnabled = true → (observeEvent e).isOk = true) :
    (s.afterRuntimeEvent e delta).1.pages = (s.followContext e c).1.pages := by
  obtain ⟨-,hok,-,-,-⟩ := h.followContext (e := e) (hknown.1 c (by simp [hone]))
  have hsorted : Dict.sorted delta.changedContexts = [c] := by
    rw [hone]
    rfl
  unfold afterRuntimeEvent
  rw [observed_ok hread,andThen_ok,hsorted,forEach,show s.followContext e c =
    ((s.followContext e c).1,.ok ()) from Prod.ext rfl hok,andThen_ok,forEach,andThen_ok]
  exact (Aside.followWakes _ _).pages

/-- A new compaction that the graph accepts, with its context id. -/
theorem Lags.compaction (h : s.Level) (hs : s.Steady) (hf : s.FollowsEvent e)
    (hk : e.kind = .contextCompact) (ha : s.graph.Accepts e) (hp : ¬ s.graph.Processed e)
    {r : InvocationRecord} (hr : s.graph.eventInvocation e = .ok r) (hid : e.contextId.isSome = true) :
    (s.processRuntimeEvent e).1.pages.pagesOf r.contextId = ∅ ∧ ∃ x : ContextRecord,
      (s.processRuntimeEvent e).1.graph.contexts[r.contextId]? = some x ∧
        (s.processRuntimeEvent e).1.pages.contextEpoch[r.contextId]? = some x.epoch := by
  cases hres : (s.graph.apply e).result with
  | error err =>
    unfold Accepts at ha
    rw [hres] at ha
    cases ha
  | ok delta =>
    obtain ⟨r',hr',hone,hsame⟩ := apply_compact hk hp hres
    cases hr.symm.trans hr'
    have hcontext : e.contextId = some r.contextId := by
      refine hsame.resolve_left fun hnone => ?_
      simp [hnone] at hid
    obtain ⟨hok,hread⟩ := hf.2 (by rw [hk]; rfl) ha
    obtain ⟨hlags,hknown⟩ := h.apply hres
    have hmem := hknown.1 r.contextId (by simp [hone])
    cases hobs : (s.consumers.apply (s.graph.step e) e).2 with
    | error err =>
      rw [hobs] at hok
      cases hok
    | ok changed =>
      -- the controller as the pages are followed: graph and consumers have taken the event
      let s₁ : BeliefKVController := { s with
        graph := s.graph.step e
        consumers := (s.consumers.apply (s.graph.step e) e).1 }
      have hlags₁ : s₁.Lags (dueOf e delta) := hlags.same ⟨⟨rfl,rfl⟩,rfl⟩
      have hsteady₁ : s₁.Steady := ⟨hs.coherent,hs.slot,hs.carried⟩
      obtain ⟨-,hafter,hview⟩ := hlags₁.after (e := e) hknown hread
      have hpages := hlags₁.after_one (e := e) hknown hone hread
      have hcall : s.processRuntimeEvent e = andThen ((s₁.afterRuntimeEvent e delta).1.observeActionFrontierEvent e)
          fun s _ => (s.appendRuntimeEvents [e],.ok delta) := by
        rw [processRuntimeEvent_accepted hres,finishEvent_observed hobs,show afterRuntimeEvent s₁ e delta =
          ((s₁.afterRuntimeEvent e delta).1,.ok ()) from Prod.ext rfl hafter,andThen_ok]
      have haside := Aside.closing (s₁.afterRuntimeEvent e delta).1 e delta
      obtain ⟨-,-,-,⟨x,hx,hepoch⟩,-⟩ := hlags₁.followContext (e := e) hmem
      rw [hcall,haside.pages,haside.graph,hpages,hview.graph]
      exact ⟨hlags₁.compacted hsteady₁ hk hcontext hmem,x,hx,hepoch⟩

/-! ## Runs -/

/-- What is required of each step of a run. -/
def KeepsUp (s : BeliefKVController) : Input → Prop
  | .event e => s.FollowsEvent e
  | .events events => s.FollowsEvents events
  | _ => True

theorem Lags.step (h : s.Level) {input : Input} (hf : s.KeepsUp input) : (s.step input).Level := by
  cases input with
  | event e => exact h.event hf
  | events events => exact h.events hf
  | engine op hop => exact h.same (.engine s hop)
  | release cs => exact h.same ⟨⟨rfl,rfl⟩,registry_unbindAll cs⟩
  | enqueue command preflight eligible =>
    exact h.same (.enqueueControlCommand s command preflight eligible)
  | dispatch eligible => exact h.same (.dispatchNext s eligible)
  | markStarted id handles => exact h.same (.markCommandStarted s id handles)
  | acknowledge ack => exact h.same (.acknowledgeCommand s ack)

theorem start_level (arbiter : RadixArbiter) (predictorEnabled shadowEnabled guardEnabled : Bool) :
    (start arbiter predictorEnabled shadowEnabled guardEnabled).Level :=
  ⟨start_wellFormed true,fun c x hx => by simp [start] at hx,fun c epoch hc => by simp [start] at hc,
    fun c hc => by simp [start] at hc⟩

/-- The reasons that a resolution gives once the epochs are checked. -/
theorem resolved_reason (selection : Selection) {empty : String} (blockers : List TransferBlocker)
    (hempty : empty ≠ "graph_page_epoch_divergence") :
    (selection.resolved empty blockers).reason ≠ "graph_page_epoch_divergence" := by
  unfold Selection.resolved
  dsimp only
  split_ifs
  · exact hempty
  · decide

theorem resolveKind_reason (a : RadixArbiter) (g : RuntimeCausalContextGraph)
    (index : PageOwnershipIndex) (command : ControlCommand) (c : String) :
    (a.resolveKind g index command c).reason ≠ "graph_page_epoch_divergence" := by
  unfold RadixArbiter.resolveKind
  split
  · exact resolved_reason _ _ (by decide)
  · exact resolved_reason _ _ (by decide)
  · exact resolved_reason _ _ (by decide)
  · exact resolved_reason _ _ (by decide)
  · simp [RadixArbiter.resolvePins]
  · simp [RadixArbiter.resolvePins]
  · decide

theorem resolvePhysicalBundle_reason (a : RadixArbiter) (g : RuntimeCausalContextGraph)
    (index : PageOwnershipIndex) (command : ControlCommand) (c : String) (epoch : ℤ)
    (intent : PhysicalBundleIntent) :
    (a.resolvePhysicalBundle g index command c epoch intent).reason ≠
      "graph_page_epoch_divergence" := by
  unfold RadixArbiter.resolvePhysicalBundle
  dsimp only
  split
  · simp
  · split_ifs <;> simp

/-- The arbiter reports a divergence only where the epochs differ. -/
theorem resolve_divergence {a : RadixArbiter} {g : RuntimeCausalContextGraph}
    {index : PageOwnershipIndex} {command : ControlCommand}
    (hreason : (a.resolve g index command).reason = "graph_page_epoch_divergence") :
    ∃ (c : String) (x : ContextRecord) (epoch : ℤ), g.contexts[c]? = some x ∧
      index.contextEpoch[c]? = some epoch ∧ x.epoch ≠ epoch := by
  unfold RadixArbiter.resolve at hreason
  by_cases hdrop : command.kind = .dropUnowned
  · rw [if_pos hdrop] at hreason
    exact absurd hreason (resolved_reason (a.unownedSelection index command) [] (by decide))
  rw [if_neg hdrop] at hreason
  split at hreason
  · rename_i c epoch _ _
    split at hreason
    · exact absurd hreason (by decide)
    · rename_i x hx
      by_cases hstale : (index.validateContextEpoch c epoch).isOk = false
      · rw [if_pos hstale] at hreason
        exact absurd hreason (by decide)
      rw [if_neg hstale] at hreason
      by_cases hne : x.epoch ≠ epoch
      · cases hval : index.validateContextEpoch c epoch with
        | error err => exact absurd (by rw [hval]; rfl) hstale
        | ok v => exact ⟨c,x,epoch,hx,validateContextEpoch_eq_ok hval,hne⟩
      rw [if_neg hne] at hreason
      split at hreason
      · exact (resolvePhysicalBundle_reason _ _ _ _ _ _ _ hreason).elim
      · exact (resolveKind_reason _ _ _ _ _ hreason).elim
  · exact absurd hreason (by decide)

/-- The page owners and the epochs of the index keep up with the graph. -/
structure Aligned (s : BeliefKVController) : Prop where
  epochs : ∀ (c : String) (epoch : ℤ), s.pages.contextEpoch[c]? = some epoch →
    ∃ x : ContextRecord, s.graph.contexts[c]? = some x ∧ x.epoch = epoch
  undivided : ∀ command : ControlCommand,
    (s.arbiter.resolve s.graph s.pages command).reason ≠ "graph_page_epoch_divergence"
  compacted : ∀ (e : RuntimeEvent) (r : InvocationRecord), s.FollowsEvent e →
    e.kind = .contextCompact → e.contextId.isSome = true → s.graph.Accepts e →
    ¬ s.graph.Processed e → s.graph.eventInvocation e = .ok r →
      (∀ h, ¬ (s.processRuntimeEvent e).1.pages.Owns r.contextId h) ∧ ∃ x : ContextRecord,
        (s.processRuntimeEvent e).1.graph.contexts[r.contextId]? = some x ∧
          (s.processRuntimeEvent e).1.pages.contextEpoch[r.contextId]? = some x.epoch

/-- In a run whose events do not raise between the graph and the index, the epochs of the index
are those of the graph in every state, and a new compaction that names its context releases the
pages of the context. -/
theorem epochs_follow_graph (arbiter : RadixArbiter)
    (predictorEnabled shadowEnabled guardEnabled : Bool) (ins : List Input)
    (h : AllSteps step KeepsUp (start arbiter predictorEnabled shadowEnabled guardEnabled) ins) :
    (run (start arbiter predictorEnabled shadowEnabled guardEnabled) ins).Aligned := by
  have hlevel : (run (start arbiter predictorEnabled shadowEnabled guardEnabled) ins).Level :=
    AllSteps.invariant (fun s input hs hin => hs.step hin) (start_level ..) h
  have hsteady := run_steady arbiter predictorEnabled shadowEnabled guardEnabled ins
  have hepochs (c : String) (epoch : ℤ) (hc : (run (start arbiter predictorEnabled shadowEnabled
      guardEnabled) ins).pages.contextEpoch[c]? = some epoch) : ∃ x : ContextRecord,
        (run (start arbiter predictorEnabled shadowEnabled guardEnabled) ins).graph.contexts[c]? =
          some x ∧ x.epoch = epoch := by
    obtain ⟨x,hx,-,heq⟩ := hlevel.listed c epoch hc
    exact ⟨x,hx,(heq (Set.notMem_empty c)).symm⟩
  refine ⟨hepochs,fun command hreason => ?_,fun e r hf hk hid ha hp hr => ?_⟩
  · obtain ⟨c,x,epoch,hx,hepoch,hne⟩ := resolve_divergence hreason
    obtain ⟨y,hy,hye⟩ := hepochs c epoch hepoch
    cases hx.symm.trans hy
    exact hne hye
  · obtain ⟨hnone,hx⟩ := hlevel.compaction hsteady hf hk ha hp hr hid
    refine ⟨fun p howns => ?_,hx⟩
    have hmem := (hsteady.step (.event e)).coherent.mem_pagesOf.mpr howns
    exact Finset.notMem_empty p (hnone ▸ hmem)

/-- The compaction of the context of an invocation, which may name the context. -/
def rawCompaction (context : Option String) : RawEvent :=
  { eventId := "compact a"
    tsMs := 1
    kind := .contextCompact
    workflowId := "w"
    invocationId := some "a"
    contextId := context
    contextEpoch := some 1 }

theorem rawCompaction_valid (context : Option String) : (rawCompaction context).Valid :=
  ⟨(by decide : isBlank "compact a" = false),(by decide : isBlank "w" = false),
    (by decide : (0 : ℚ) ≤ 1),by simp [rawCompaction],by simp [rawCompaction]⟩

def compaction (context : Option String) : RuntimeEvent :=
  ⟨rawCompaction context,rawCompaction_valid context⟩

/-- A context gets a page. -/
def onePageBound : List Input :=
  RuntimeCausalContextGraph.sampleStart.map Input.event ++
    [.engine (.registerPage ⟨0,0⟩ 1 .gpuOnly 0 none true 0) PhysicalResidency.gpuOnly_ne_dead,
      .engine (.bindPages "ca" 0 [⟨0,0⟩] false) trivial]

instance (index : PageOwnershipIndex) (c : String) (h : PageHandle) : Decidable (index.Owns c h) :=
  decidable_of_iff (index.pages[h]?.any fun p => c ∈ p.ownerContexts) (by
    unfold Owns
    rw [Option.any_eq_true]
    simp only [decide_eq_true_eq])

instance (s : BeliefKVController) (e : RuntimeEvent) : Decidable (s.FollowsEvent e) :=
  inferInstanceAs (Decidable (_ ∧ _))

theorem epochs_follow_graph_sample :
    (run (start Ledger.plainArbiter false true true) onePageBound).Aligned ∧
      ¬ (run (start Ledger.plainArbiter false true true)
        (onePageBound ++ [.event (compaction (some "ca"))])).pages.Owns "ca" ⟨0,0⟩ := by
  have hall : AllSteps step KeepsUp (start Ledger.plainArbiter false true true) onePageBound := by
    refine ⟨?_,?_,?_,?_,trivial,trivial,trivial⟩
    all_goals
      unfold KeepsUp
      decide +kernel
  have haligned := epochs_follow_graph Ledger.plainArbiter false true true onePageBound hall
  refine ⟨haligned,?_⟩
  have hcontext : ((run (start Ledger.plainArbiter false true true) onePageBound).graph.eventInvocation
      (compaction (some "ca"))).toOption.map InvocationRecord.contextId = some "ca" := by
    decide +kernel
  cases hr : (run (start Ledger.plainArbiter false true true) onePageBound).graph.eventInvocation
      (compaction (some "ca")) with
  | error err =>
    rw [hr] at hcontext
    cases hcontext
  | ok r =>
    rw [hr] at hcontext
    have hgone := (haligned.compacted (compaction (some "ca")) r (by decide +kernel) rfl rfl
      (by decide +kernel) (by decide +kernel) hr).1 ⟨0,0⟩
    rw [show r.contextId = "ca" from Option.some.inj hcontext] at hgone
    rw [run,List.foldl_append]
    exact hgone

/-- The compaction of a context that the event does not name: the graph accepts it and moves the
context on, and the context keeps its page. -/
theorem unnamed_compaction_keeps_pages :
    let s := run (start Ledger.plainArbiter false true true) onePageBound
    s.graph.Accepts (compaction none) ∧ ¬ s.graph.Processed (compaction none) ∧
      (s.processRuntimeEvent (compaction none)).2.isOk = true ∧
      (s.processRuntimeEvent (compaction none)).1.graph.contexts["ca"]?.map ContextRecord.epoch =
        some 1 ∧
      (s.processRuntimeEvent (compaction none)).1.pages.Owns "ca" ⟨0,0⟩ := by
  decide +kernel

end BeliefKV.BeliefKVController
