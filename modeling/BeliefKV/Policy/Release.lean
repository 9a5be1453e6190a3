import BeliefKV.Policy.Residency
import BeliefKV.Controller.Atomicity

/-! The release of the pages of dead contexts, which every tick of the controller begins with. -/
namespace BeliefKV

namespace PageOwnershipIndex
variable {s : PageOwnershipIndex} {c : String} {h : PageHandle}

/-- The record of the page lists the context. -/
def Owns (s : PageOwnershipIndex) (c : String) (h : PageHandle) : Prop :=
  ∃ p : PhysicalPageRecord, s.pages[h]? = some p ∧ c ∈ p.ownerContexts

theorem Coherent.mem_pagesOf (hs : s.Coherent) : h ∈ s.pagesOf c ↔ s.Owns c h := by
  obtain ⟨t,ha,hinv,-⟩ := id hs
  constructor
  · intro hmem
    obtain ⟨p,hp⟩ := (Dict.mem_iff_get _ _).mp (hs.base.pagesOf_known c h hmem).2
    obtain ⟨pins,hq⟩ := ha.record.get hp
    rw [← ha.pagesOf] at hmem
    exact ⟨p,hp,(hinv.owner_iff c h _ hq).mp hmem⟩
  · rintro ⟨p,hp,hc⟩
    obtain ⟨pins,hq⟩ := ha.record.get hp
    rw [← ha.pagesOf]
    exact (hinv.owner_iff c h { p with semanticPinContexts := pins } hq).mpr hc

theorem pagesOf_unbindContext (a : String) : (s.unbindContext a).pagesOf c =
    if c = a then ∅ else s.pagesOf c := by
  have hdisown := pagesOf_disownPages s a c
  unfold unbindContext
  dsimp only
  by_cases hne : s.pagesOf a ≠ ∅
  · rw [if_pos hne]
    exact hdisown
  · rw [if_neg hne]
    exact hdisown

theorem pagesOf_unbindAll (cs : List String) : (cs.foldl (·.unbindContext ·) s).pagesOf c =
    if c ∈ cs then ∅ else s.pagesOf c := by
  induction cs generalizing s with
  | nil => simp
  | cons a cs ih =>
    rw [List.foldl_cons,ih,pagesOf_unbindContext]
    by_cases hc : c ∈ cs
    · simp [hc]
    · by_cases ha : c = a
      · simp [ha]
      · simp [hc,ha]

end PageOwnershipIndex

namespace RuntimeCausalContextGraph
variable {g : RuntimeCausalContextGraph} {c : String} {context : ContextRecord}

/-- The contexts whose pages are released. -/
def terminalOwners (g : RuntimeCausalContextGraph) : List String :=
  g.contexts.keys.filter fun c => (g.assessContext c 0).residencyClass = .deadUnowned

/-- The context is not persistent, and all its invocations have ended. -/
def Finished (g : RuntimeCausalContextGraph) (context : ContextRecord) : Prop :=
  context.persistent = false ∧ ∀ i ∈ context.invocationIds, ∀ r : InvocationRecord,
    g.invocations[i]? = some r → r.state.terminal = true

/-- An invocation of the context has a message it has not read. -/
def Messaged (g : RuntimeCausalContextGraph) (context : ContextRecord) : Prop :=
  ∃ r ∈ g.contextInvocations context, 0 < r.pendingMessages

theorem mem_terminalOwners (hc : g.contexts[c]? = some context) : c ∈ g.terminalOwners ↔
    (g.assessContext c 0).residencyClass = .deadUnowned := by
  have hknown : c ∈ g.contexts := (Dict.mem_iff_get _ _).mpr ⟨context,hc⟩
  simp [terminalOwners,Std.ExtTreeMap.mem_keys,hknown]

theorem assessContext_of_ended (hc : g.contexts[c]? = some context) (hend : g.Ended context) :
    (g.assessContext c 0).residencyClass = .deadUnowned := by
  obtain ⟨t,ht⟩ := ended_iff.mp hend
  simp [assessContext,hc,ht]

theorem assessContext_of_open (hc : g.contexts[c]? = some context) (hend : ¬ g.Ended context) :
    g.assessContext c 0 = g.assessOpen context := by
  have hopen : g.workflows[context.workflowId]?.bind WorkflowRecord.endTsMs = none := by
    rw [Option.eq_none_iff_forall_not_mem]
    exact fun t ht => hend (ended_iff.mpr ⟨t,ht⟩)
  simp only [assessContext,hc,hopen]

/-- A finished context is dead once its workflow has ended, and before that unless it has a message. -/
theorem Finished.dead_iff (hf : g.Finished context) (hc : g.contexts[c]? = some context) :
    (g.assessContext c 0).residencyClass = .deadUnowned ↔ g.Ended context ∨ ¬ g.Messaged context := by
  have hterm (r : InvocationRecord) (hr : r ∈ g.contextInvocations context) :
      r.state.terminal = true := by
    obtain ⟨i,hi,hget⟩ := mem_contextInvocations.mp hr
    exact hf.2 i hi r hget
  have hst (r : InvocationRecord) (hr : r ∈ g.contextInvocations context) :
      r.state ≠ .runningLlm ∧ r.state ≠ .ready := by
    have ht := hterm r hr
    constructor <;> rintro heq <;> simp [heq,InvocationState.terminal] at ht
  by_cases hend : g.Ended context
  · exact iff_of_true (assessContext_of_ended hc hend) (.inl hend)
  · rw [assessContext_of_open hc hend]
    have hrun : (g.contextInvocations context).any (·.state = .runningLlm) = false := by
      rw [List.any_eq_false]
      exact fun r hr => by simpa using (hst r hr).1
    have hlive : (g.contextInvocations context).any (!·.state.terminal) = false := by
      rw [List.any_eq_false]
      exact fun r hr => by simpa using hterm r hr
    have hfront : (g.contextInvocations context).any (fun r => r.state = .ready ∨ 0 < r.pendingMessages) =
        true ↔ g.Messaged context := by
      rw [List.any_eq_true]
      refine exists_congr fun r => and_congr_right fun hr => ?_
      simp [(hst r hr).2]
    unfold assessOpen
    simp only [filter_ne_nil,hrun,hlive,hf.1,Bool.false_eq_true,if_false]
    by_cases hm : g.Messaged context
    · rw [if_pos (hfront.mpr hm)]
      simp [hm,hend]
    · rw [if_neg (mt hfront.mp hm)]
      simp [hm]

/-- A context with a running or ready invocation in a workflow that goes on is not dead. -/
theorem assessContext_of_active (hc : g.contexts[c]? = some context) (hend : ¬ g.Ended context)
    (hact : ∃ r ∈ g.contextInvocations context, r.state = .runningLlm ∨ r.state = .ready) :
    (g.assessContext c 0).residencyClass ≠ .deadUnowned := by
  rw [assessContext_of_open hc hend]
  obtain ⟨r,hr,hst⟩ := hact
  unfold assessOpen
  simp only [filter_ne_nil]
  by_cases hrun : (g.contextInvocations context).any (·.state = .runningLlm) = true
  · simp [hrun]
  · have hready : r.state = .ready := by
      rcases hst with hst | hst
      · exact absurd (List.any_eq_true.mpr ⟨r,hr,by simp [hst]⟩) hrun
      · exact hst
    have hfront : (g.contextInvocations context).any (fun r => r.state = .ready ∨ 0 < r.pendingMessages) =
        true := List.any_eq_true.mpr ⟨r,hr,by simp [hready]⟩
    rw [if_neg hrun,if_pos hfront]
    simp

end RuntimeCausalContextGraph

namespace BeliefKVController
open RuntimeCausalContextGraph

/-- The first thing a tick does. -/
def releaseTerminalOwners (s : BeliefKVController) : BeliefKVController :=
  s.step (.release s.graph.terminalOwners)

variable {s : BeliefKVController} {c : String} {context : ContextRecord}

theorem Steady.owns_released (hs : s.Steady) {h : PageHandle} :
    s.releaseTerminalOwners.pages.Owns c h ↔ c ∉ s.graph.terminalOwners ∧ s.pages.Owns c h := by
  have hs' : s.releaseTerminalOwners.Steady := hs.step _
  rw [← hs'.coherent.mem_pagesOf,← hs.coherent.mem_pagesOf]
  simp only [releaseTerminalOwners,BeliefKVController.step]
  rw [PageOwnershipIndex.pagesOf_unbindAll]
  split_ifs with hc <;> simp [hc]

/-- In every reachable state a tick takes the pages of a finished context exactly when the workflow
has ended, no invocation of the context has a message left, or there are no pages; and it takes no
page of a context with a running or ready invocation in a workflow that goes on. -/
theorem finished_released_iff (arbiter : RadixArbiter)
    (predictorEnabled shadowEnabled guardEnabled : Bool) (ins : List Input) (c : String)
    (context : ContextRecord)
    (hc : (run (start arbiter predictorEnabled shadowEnabled guardEnabled) ins).graph.contexts[c]? =
      some context) :
    let s := run (start arbiter predictorEnabled shadowEnabled guardEnabled) ins
    ((s.graph.Finished context → ∀ h, ¬ s.releaseTerminalOwners.pages.Owns c h) ↔
      (s.graph.Finished context → s.graph.Ended context ∨ ¬ s.graph.Messaged context ∨
        ∀ h, ¬ s.pages.Owns c h)) ∧
    (¬ s.graph.Ended context →
      (∃ r ∈ s.graph.contextInvocations context, r.state = .runningLlm ∨ r.state = .ready) →
      ∀ h, s.pages.Owns c h → s.releaseTerminalOwners.pages.Owns c h) := by
  intro s
  have hs : s.Steady := run_steady arbiter predictorEnabled shadowEnabled guardEnabled ins
  constructor
  · refine imp_congr_right fun hf => ?_
    have hmem : c ∈ s.graph.terminalOwners ↔ s.graph.Ended context ∨ ¬ s.graph.Messaged context :=
      (mem_terminalOwners hc).trans (hf.dead_iff hc)
    simp only [hs.owns_released,hmem,not_and]
    by_cases hgone : s.graph.Ended context ∨ ¬ s.graph.Messaged context
    · exact iff_of_true (fun h hn => absurd hgone hn) (hgone.imp_right .inl)
    · rw [not_or] at hgone
      simp [hgone]
  · intro hend hact h hown
    refine hs.owns_released.mpr ⟨?_,hown⟩
    rw [mem_terminalOwners hc]
    exact assessContext_of_active hc hend hact

/-- An invocation returns; its context has a page. -/
def returned (events : List RuntimeEvent) : List Input :=
  (sampleStart ++ events ++ [sampleEvent "return" .return (some "a") none none]).map Input.event ++
    [.engine (.registerPage ⟨0,0⟩ 1 .gpuOnly 0 none true 0) PhysicalResidency.gpuOnly_ne_dead,
      .engine (.bindPages "ca" 0 [⟨0,0⟩] false) trivial]

/-- The state after some events and the return. -/
def afterReturn (events : List RuntimeEvent) : BeliefKVController :=
  run (start { digests := ⟨fun _ => "b",fun _ => "f"⟩ } false true true) (returned events)

/-- The context of an invocation that returned is finished. -/
theorem finished_of_done {g : RuntimeCausalContextGraph} {context : ContextRecord}
    (hc : g.contexts["ca"]?.map (fun x => (x.persistent,x.invocationIds)) = some (false,{"a"}))
    (ha : g.invocations["a"]?.map InvocationRecord.state = some .done)
    (hx : g.contexts["ca"]? = some context) : g.Finished context := by
  rw [hx] at hc
  obtain ⟨hp,hi⟩ := Prod.mk.inj (Option.some.inj hc)
  refine ⟨hp,fun i hmem r hr => ?_⟩
  rw [hi,Finset.mem_singleton] at hmem
  rw [← hmem,hr] at ha
  rw [Option.some.inj ha]
  rfl

theorem owns_of_any {pages : PageOwnershipIndex} {c : String} {h : PageHandle}
    (hany : pages.pages[h]?.any (fun p => c ∈ p.ownerContexts) = true) : pages.Owns c h := by
  cases hp : pages.pages[h]? with
  | none => simp [hp] at hany
  | some p => exact ⟨p,hp,by simpa [hp] using hany⟩

theorem finished_released_sample : ∃ context, (afterReturn []).graph.contexts["ca"]? = some context ∧
    (afterReturn []).graph.Finished context ∧ (afterReturn []).pages.Owns "ca" ⟨0,0⟩ ∧
      ∀ h, ¬ (afterReturn []).releaseTerminalOwners.pages.Owns "ca" h := by
  have hc : (afterReturn []).graph.contexts["ca"]?.map (fun x => (x.persistent,x.invocationIds)) =
      some (false,{"a"}) := by decide
  have ha : (afterReturn []).graph.invocations["a"]?.map
      (fun r => (r.state,r.pendingMessages)) = some (.done,0) := by decide
  have ha' : (afterReturn []).graph.invocations["a"]?.map InvocationRecord.state = some .done := by
    decide
  obtain ⟨context,hx,hids⟩ := Option.map_eq_some_iff.mp hc
  have hf := finished_of_done hc ha' hx
  refine ⟨context,hx,hf,owns_of_any (by decide),?_⟩
  refine (finished_released_iff _ false true true (returned []) "ca" context hx).1.mpr
    (fun _ => .inr (.inl ?_)) hf
  rintro ⟨r,hr,hmsg⟩
  obtain ⟨i,hi,hget⟩ := mem_contextInvocations.mp hr
  rw [(Prod.mk.inj hids).2,Finset.mem_singleton] at hi
  rw [← hi] at ha
  rw [show (afterReturn []).graph.invocations[i]? = some r from hget] at ha
  have hzero : r.pendingMessages = 0 := (Prod.mk.inj (Option.some.inj ha)).2
  omega

/-- An invocation that returns with a message unread keeps the pages of its context. -/
theorem unread_message_keeps_pages : ∃ context,
    (afterReturn [sampleEvent "message" .message (some "b") (some "a") none]).graph.contexts["ca"]? =
      some context ∧
    (afterReturn [sampleEvent "message" .message (some "b") (some "a") none]).graph.Finished context ∧
    (afterReturn [sampleEvent "message" .message (some "b") (some "a")
      none]).releaseTerminalOwners.pages.Owns "ca" ⟨0,0⟩ := by
  have hc : (afterReturn [sampleEvent "message" .message (some "b") (some "a")
      none]).graph.contexts["ca"]?.map (fun x => (x.persistent,x.invocationIds)) =
        some (false,{"a"}) := by decide
  obtain ⟨context,hx,-⟩ := Option.map_eq_some_iff.mp hc
  exact ⟨context,hx,finished_of_done hc (by decide) hx,owns_of_any (by decide)⟩

end BeliefKVController
end BeliefKV
