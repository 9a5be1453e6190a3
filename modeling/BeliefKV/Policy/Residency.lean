import BeliefKV.Arbiter.Basic
import BeliefKV.Graph.Runs

/-! The residency classes of contexts and pages, compared with the leases and with the owners the
arbiter protects. -/
namespace BeliefKV

inductive ResidencyClass
  | deadUnowned
  | parked
  | imminent
  | pinned
  deriving DecidableEq, Repr

def ResidencyClass.rank : ResidencyClass → ℕ
  | .deadUnowned => 0
  | .parked => 1
  | .imminent => 2
  | .pinned => 3

structure ResidencyAssessment where
  residencyClass : ResidencyClass
  reason : String
  sinceMs : ℚ

namespace RuntimeCausalContextGraph
variable (graph : RuntimeCausalContextGraph)

/-- The earliest update of some invocations. -/
def earliestUpdate (invocations : List InvocationRecord) : ℚ :=
  (invocations.map InvocationRecord.updatedTsMs).min?.getD 0

/-- The class of a context that is known and whose workflow goes on. -/
def assessOpen (context : ContextRecord) : ResidencyAssessment :=
  let invocations := graph.contextInvocations context
  let running := invocations.filter (·.state = .runningLlm)
  let frontier := invocations.filter fun r => r.state = .ready ∨ 0 < r.pendingMessages
  let live := invocations.filter (!·.state.terminal)
  if running ≠ [] then ⟨.pinned,"active_llm",earliestUpdate running⟩
  else if frontier ≠ [] then ⟨.imminent,"causal_frontier",earliestUpdate frontier⟩
  else if live ≠ [] then
    ⟨.parked,String.intercalate "+" (Dict.sorted (live.map (·.state.value)).toFinset),
      earliestUpdate live⟩
  else if context.persistent then ⟨.parked,"persistent_inactive",context.updatedTsMs⟩
  else ⟨.deadUnowned,"all_invocations_terminal",context.updatedTsMs⟩

def assessContext (contextId : String) (nowMs : ℚ) : ResidencyAssessment :=
  match graph.contexts[contextId]? with
  | none => ⟨.deadUnowned,"missing_context",nowMs⟩
  | some context =>
    match graph.workflows[context.workflowId]?.bind WorkflowRecord.endTsMs with
    | some ended => ⟨.deadUnowned,"workflow_ended",ended⟩
    | none => graph.assessOpen context

/-- The first of the strongest assessments. The source meets the owners in the order they were
bound; only the reason and the time depend on it. -/
def strongestAssessment (first : ResidencyAssessment) (rest : List ResidencyAssessment) :
    ResidencyAssessment :=
  rest.foldl (fun a b => if a.residencyClass.rank < b.residencyClass.rank then b else a) first

def assessPage (page : PhysicalPageRecord) (nowMs : ℚ) : ResidencyAssessment :=
  if 0 < page.engineLockRef ∨ 0 < page.activeReaderCount then ⟨.pinned,"engine_active",nowMs⟩
  else if page.semanticPinContexts ≠ ∅ then ⟨.pinned,"semantic_pin",nowMs⟩
  else
    match page.ownerContexts.keys.map fun owner => graph.assessContext owner nowMs with
    | [] => ⟨.deadUnowned,"no_semantic_owner",page.lastAccessMs⟩
    | first :: rest =>
      let strongest := strongestAssessment first rest
      { strongest with reason := "strongest_owner:" ++ strongest.reason }

end RuntimeCausalContextGraph

/-- A lease kind and the class that stands for it. -/
def Corresponds (kind : LeaseKind) (cls : ResidencyClass) : Prop :=
  (kind = .running ↔ cls = .pinned) ∧ (kind = .ready ↔ cls = .imminent) ∧
    (kind = .conditionalResume ↔ cls = .parked) ∧ (kind = .dead ↔ cls = .deadUnowned)

instance (kind : LeaseKind) (cls : ResidencyClass) : Decidable (Corresponds kind cls) :=
  inferInstanceAs (Decidable (_ ∧ _))

/-- Corresponding kinds and classes are ordered alike. -/
theorem Corresponds.strength_lt {k k' : LeaseKind} {c c' : ResidencyClass} (h : Corresponds k c)
    (h' : Corresponds k' c') : k.strength < k'.strength ↔ c.rank < c'.rank := by
  revert h h'
  cases k <;> cases c <;> cases k' <;> cases c' <;> decide

/-! ## The states invocations are in -/

namespace Lifecycle
variable {s : Lifecycle} {m : Move} {k : String} {a : Agent}

/-- No invocation is CREATED or RETURNING. -/
def Started (s : Lifecycle) : Prop :=
  ∀ k a, s.agent k = some a → a.state ≠ .created ∧ a.state ≠ .returning

theorem ne_of_active {state : InvocationState} (h : state.active = true) :
    state ≠ .created ∧ state ≠ .returning := by
  cases state <;> simp_all [InvocationState.active]

theorem release_started {i : String} (ha : a.state ≠ .created ∧ a.state ≠ .returning) :
    (release i a).state ≠ .created ∧ (release i a).state ≠ .returning := by
  unfold release
  dsimp only
  split_ifs
  · simp
  · exact ha

theorem wake_started (ha : a.state ≠ .created ∧ a.state ≠ .returning) :
    (wake a).state ≠ .created ∧ (wake a).state ≠ .returning := by
  unfold wake
  dsimp only
  split_ifs
  · simp
  · exact ha

theorem settle_started {st : InvocationState} {i : String} (hst : st.terminal = true)
    (ha : a.state ≠ .created ∧ a.state ≠ .returning) :
    (s.settle i st k a).state ≠ .created ∧ (s.settle i st k a).state ≠ .returning := by
  have hfinal : st ≠ .created ∧ st ≠ .returning := by
    cases st <;> simp_all [InvocationState.terminal]
  unfold settle
  dsimp only
  split_ifs
  · exact wake_started (release_started hfinal)
  · exact wake_started (release_started ha)
  · exact wake_started hfinal
  · exact wake_started ha
  · exact release_started hfinal
  · exact release_started ha
  · exact hfinal
  · exact ha

theorem act_started (hm : s.Enabled m) (ha : a.state ≠ .created ∧ a.state ≠ .returning) :
    (s.act m k a).state ≠ .created ∧ (s.act m k a).state ≠ .returning := by
  cases m with
  | drive f =>
    simp only [act]
    cases hf : f k with
    | none => exact ha
    | some state => exact ne_of_active (hm k state hf).2
  | enter => exact ha
  | attach =>
    simp only [act]
    split_ifs <;> simp_all
  | await =>
    simp only [act]
    split_ifs <;> simp_all
  | finish i st => exact settle_started hm.2 ha
  | fire =>
    simp only [act]
    split_ifs
    · exact wake_started ha
    · exact ha
  | openJoin => exact ha
  | close =>
    simp only [act]
    split_ifs <;> simp_all

theorem Started.next (hs : s.Started) (hm : s.Enabled m) : (s.next m).Started := by
  intro k b hb
  rcases agent_next hm hb with ⟨a,ha,rfl⟩ | rfl
  · exact act_started hm (hs k a ha)
  · rw [hm.2.1]
    simp

end Lifecycle

namespace RuntimeCausalContextGraph
variable {g : RuntimeCausalContextGraph}

theorem run_started (strict : Bool) (events : List RuntimeEvent) (i : String) (r : InvocationRecord)
    (hr : ((start strict).run events).invocations[i]? = some r) :
    r.state ≠ .created ∧ r.state ≠ .returning := by
  have hall : Run.AllSteps step (fun _ _ => True) (start strict) events :=
    Run.AllSteps.of_forall (fun _ _ _ => trivial) _
  have hempty : (start strict).view.Started := by
    intro k a ha
    obtain ⟨q,hq,-⟩ := view_agent_eq_some.mp ha
    simp [start] at hq
  obtain ⟨-,hstarted⟩ := run_preserves (I := Lifecycle.Started)
    (fun _ _ _ _ hs _ _ hm _ => hs.next hm) (start_wellFormed strict) hempty hall
  exact hstarted i (agentOf r) (view_agent hr)

/-! ## Leases and classes -/

/-- Every invocation is in a state that events lead to. -/
def Settled (g : RuntimeCausalContextGraph) : Prop :=
  ∀ (i : String) (r : InvocationRecord), g.invocations[i]? = some r →
    r.state ≠ .created ∧ r.state ≠ .returning

theorem mem_contextInvocations {context : ContextRecord} {r : InvocationRecord} :
    r ∈ g.contextInvocations context ↔ ∃ i ∈ context.invocationIds, g.invocations[i]? = some r := by
  simp [contextInvocations]

/-- The workflow of a context has ended. -/
def Ended (g : RuntimeCausalContextGraph) (context : ContextRecord) : Prop :=
  g.workflows[context.workflowId]?.any (·.endTsMs.isSome) = true

instance (context : ContextRecord) : Decidable (g.Ended context) := inferInstanceAs (Decidable (_ = _))

theorem ended_iff {context : ContextRecord} : g.Ended context ↔
    ∃ t, g.workflows[context.workflowId]?.bind WorkflowRecord.endTsMs = some t := by
  unfold Ended
  cases g.workflows[context.workflowId]? with
  | none => simp
  | some w => simp [Option.isSome_iff_exists]

/-- The kind of a lease, without what it waits for. -/
theorem knownLease_kind (context : ContextRecord) : (g.knownLease context).kind =
    if g.workflows[context.workflowId]?.any (·.endTsMs.isSome) then LeaseKind.dead
    else if (g.contextInvocations context).any (·.state = .runningLlm) then .running
    else if (g.contextInvocations context).any (fun r => r.state ∈ [.created,.ready,.returning] ∨
      0 < r.pendingMessages) then .ready
    else if (g.contextInvocations context).filter (!·.state.terminal) ≠ [] ∨ context.persistent then
      .conditionalResume
    else .dead := by
  have hperm := List.perm_insertionSort (fun a b : InvocationRecord =>
    (compare (a.updatedTsMs,a.invocationId) (b.updatedTsMs,b.invocationId)).isLE = true)
    ((g.contextInvocations context).filter (!·.state.terminal))
  unfold knownLease
  dsimp only
  revert hperm
  generalize ((g.contextInvocations context).filter (!·.state.terminal)).insertionSort
    (fun a b : InvocationRecord =>
      (compare (a.updatedTsMs,a.invocationId) (b.updatedTsMs,b.invocationId)).isLE = true) = sorted
  intro hperm
  cases sorted with
  | nil =>
    rw [hperm.symm.eq_nil]
    simp only [ne_eq,not_true_eq_false,false_or]
    split_ifs <;> rfl
  | cons r rest =>
    have hne : (g.contextInvocations context).filter (!·.state.terminal) ≠ [] := by
      intro hnil
      rw [hnil] at hperm
      exact absurd hperm.eq_nil (by simp)
    simp only [hne,ne_eq,not_false_eq_true,true_or,if_true]
    split_ifs <;> rfl

theorem any_frontier (hg : g.Settled) (context : ContextRecord) :
    (g.contextInvocations context).any (fun r => r.state ∈ [.created,.ready,.returning] ∨
      0 < r.pendingMessages) =
    (g.contextInvocations context).any fun r => r.state = .ready ∨ 0 < r.pendingMessages := by
  rw [Bool.eq_iff_iff,List.any_eq_true,List.any_eq_true]
  refine exists_congr fun r => and_congr_right fun hr => ?_
  obtain ⟨i,-,hi⟩ := mem_contextInvocations.mp hr
  obtain ⟨hc,ht⟩ := hg i r hi
  simp [hc,ht]

theorem filter_ne_nil {α : Type} (p : α → Bool) (l : List α) : l.filter p ≠ [] ↔ l.any p = true := by
  simp [List.filter_eq_nil_iff]

theorem lease_corresponds (hg : g.Settled) {contextId : String} (hknown : contextId ∈ g.contexts)
    (nowMs : ℚ) : Corresponds (g.lease contextId).kind (g.assessContext contextId nowMs).residencyClass := by
  obtain ⟨context,hc⟩ := (Dict.mem_iff_get _ _).mp hknown
  unfold lease assessContext
  simp only [hc]
  rw [knownLease_kind,any_frontier hg]
  by_cases hend : g.workflows[context.workflowId]?.any (·.endTsMs.isSome) = true
  · obtain ⟨t,ht⟩ := ended_iff.mp hend
    rw [if_pos hend,ht]
    dsimp only
    decide
  · have hopen : g.workflows[context.workflowId]?.bind WorkflowRecord.endTsMs = none := by
      rw [Option.eq_none_iff_forall_not_mem]
      exact fun t ht => hend (ended_iff.mpr ⟨t,ht⟩)
    rw [if_neg hend,hopen]
    unfold assessOpen
    dsimp only
    simp only [filter_ne_nil]
    split_ifs
    all_goals dsimp only
    all_goals first | decide | simp_all

theorem strongest_corresponds (hg : g.Settled) (nowMs : ℚ) (owners : List String)
    (hknown : ∀ c ∈ owners, c ∈ g.contexts) {kind : LeaseKind} {first : ResidencyAssessment}
    (h : Corresponds kind first.residencyClass) :
    Corresponds (owners.foldl (fun kind owner =>
        if kind.strength < (g.lease owner).kind.strength then (g.lease owner).kind else kind) kind)
      (strongestAssessment first (owners.map (g.assessContext · nowMs))).residencyClass := by
  unfold strongestAssessment
  induction owners generalizing kind first with
  | nil => exact h
  | cons c owners ih =>
    have hc := lease_corresponds hg (hknown c (by simp)) nowMs
    rw [List.foldl_cons,List.map_cons,List.foldl_cons]
    refine ih (fun c' hc' => hknown c' (by simp [hc'])) ?_
    simp only [h.strength_lt hc]
    split_ifs
    · exact hc
    · exact h

theorem page_corresponds (hg : g.Settled) (nowMs : ℚ) {page : PhysicalPageRecord}
    (hknown : ∀ c ∈ page.ownerContexts.keys, c ∈ g.contexts)
    (hlock : ¬ (0 < page.engineLockRef ∨ 0 < page.activeReaderCount))
    (hpin : page.semanticPinContexts = ∅) :
    Corresponds (g.strongestKind page.ownerContexts.keys) (g.assessPage page nowMs).residencyClass := by
  unfold assessPage strongestKind
  rw [if_neg hlock,if_neg (not_not.mpr hpin)]
  revert hknown
  generalize page.ownerContexts.keys = owners
  intro hknown
  cases owners with
  | nil =>
    exact (by decide : Corresponds .dead .deadUnowned)
  | cons c owners =>
    have hc := lease_corresponds hg (hknown c (by simp)) nowMs
    have hfirst : (if LeaseKind.dead.strength < (g.lease c).kind.strength then (g.lease c).kind
        else .dead) = (g.lease c).kind := by
      cases (g.lease c).kind <;> rfl
    rw [List.foldl_cons,List.map_cons,hfirst]
    exact strongest_corresponds hg nowMs owners (fun c' hc' => hknown c' (by simp [hc'])) hc

/-- In every reachable graph the lease of a known context and its residency class correspond, and
so do the strongest lease of some known owners and the class of a page they own that is neither
locked nor pinned. -/
theorem leases_correspond (strict : Bool) (events : List RuntimeEvent) (nowMs : ℚ) :
    (∀ contextId ∈ ((start strict).run events).contexts,
      Corresponds (((start strict).run events).lease contextId).kind
        (((start strict).run events).assessContext contextId nowMs).residencyClass) ∧
    ∀ page : PhysicalPageRecord,
      (∀ c ∈ page.ownerContexts.keys, c ∈ ((start strict).run events).contexts) →
      ¬ (0 < page.engineLockRef ∨ 0 < page.activeReaderCount) → page.semanticPinContexts = ∅ →
      Corresponds (((start strict).run events).strongestKind page.ownerContexts.keys)
        (((start strict).run events).assessPage page nowMs).residencyClass := by
  have hg : ((start strict).run events).Settled := run_started strict events
  refine ⟨fun contextId hknown => lease_corresponds hg hknown nowMs,fun page hknown hlock hpin => ?_⟩
  exact page_corresponds hg nowMs hknown hlock hpin

/-- A context with an invocation in its first state. -/
theorem leases_correspond_sample :
    (((start true).run sampleStart).lease "ca").kind = .ready ∧
      Corresponds (((start true).run sampleStart).lease "ca").kind
        (((start true).run sampleStart).assessContext "ca" 0).residencyClass := by
  refine ⟨by decide,(leases_correspond true sampleStart 0).1 "ca" ?_⟩
  decide

/-! ## Protected owners -/

section Owners
variable {command : ControlCommand} {c : String}

/-- The state of an invocation keeps the pages of its context where they are. -/
def Busy (command : ControlCommand) (r : InvocationRecord) : Prop :=
  r.state = .runningLlm ∨ (r.state = .ready ∧ command.allowReadyOwners = false)

/-- The owner is protected or unknown, or has a busy invocation in a workflow that goes on. -/
def OwnerHeld (g : RuntimeCausalContextGraph) (command : ControlCommand) (c : String) : Prop :=
  some c = command.protectedContextId ∨ ∀ context, g.contexts[c]? = some context →
    ¬ g.Ended context ∧ ∃ r ∈ g.contextInvocations context, Busy command r

/-- The owner has a busy invocation in a workflow that has ended. -/
def OwnerOutlived (g : RuntimeCausalContextGraph) (command : ControlCommand) (c : String) : Prop :=
  ∃ context, g.contexts[c]? = some context ∧ g.Ended context ∧
    ∃ r ∈ g.contextInvocations context, Busy command r

/-- The owner has a pending message and no busy invocation, and ready owners are not allowed. -/
def OwnerMessaged (g : RuntimeCausalContextGraph) (command : ControlCommand) (c : String) : Prop :=
  command.allowReadyOwners = false ∧ ∃ context, g.contexts[c]? = some context ∧
    ¬ g.Ended context ∧ (∀ r ∈ g.contextInvocations context, ¬ Busy command r) ∧
      ∃ r ∈ g.contextInvocations context, 0 < r.pendingMessages

theorem pageHasActiveOwner_iff {page : PhysicalPageRecord} : pageHasActiveOwner g command page = true ↔
    ∃ c ∈ page.ownerContexts.keys, g.OwnerHeld command c ∨ g.OwnerOutlived command c := by
  unfold pageHasActiveOwner
  rw [List.any_eq_true]
  refine exists_congr fun c => and_congr_right fun _ => ?_
  unfold OwnerHeld OwnerOutlived Busy
  cases g.contexts[c]? with
  | none => simp
  | some context =>
    by_cases hend : g.Ended context
    · simp [hend]
    · simp [hend]

/-- What a lease blocks. -/
def LeaseBlocks (g : RuntimeCausalContextGraph) (command : ControlCommand) (c : String) : Prop :=
  some c = command.protectedContextId ∨ (g.lease c).kind = .running ∨
    ((g.lease c).kind = .ready ∧ command.allowReadyOwners = false)

theorem ownerBlockers_ne_nil (command : ControlCommand) (options : PreviewOptions)
    (page : PhysicalPageRecord) (hbypass : options.bypassOwnerContextIds = ∅)
    (hallow : options.allowReadyOwners = command.allowReadyOwners)
    (hprotect : options.protectedContextId = command.protectedContextId) :
    ownerBlockers g options page ≠ [] ↔ ∃ c ∈ page.ownerContexts.keys, g.LeaseBlocks command c := by
  unfold ownerBlockers LeaseBlocks
  rw [hbypass,hallow,hprotect,ne_eq,List.filterMap_eq_nil_iff]
  simp only [Finset.notMem_empty,if_false,ite_eq_right_iff,reduceCtorEq,imp_false,not_forall,not_not,
    exists_prop]

theorem leaseBlocks_iff (hg : g.Settled) :
    g.LeaseBlocks command c ↔ g.OwnerHeld command c ∨ g.OwnerMessaged command c := by
  unfold LeaseBlocks OwnerHeld OwnerMessaged lease
  cases hc : g.contexts[c]? with
  | none => simp
  | some context =>
    dsimp only
    rw [knownLease_kind,any_frontier hg]
    by_cases hend : g.Ended context
    · have hend' := hend
      unfold Ended at hend'
      simp [hend,hend']
    · have hend' := hend
      unfold Ended at hend'
      rw [if_neg hend']
      simp only [List.any_eq_true,decide_eq_true_eq,Option.some.injEq,forall_eq',
        exists_eq_left',hend,not_false_eq_true,true_and]
      by_cases hrun : ∃ r ∈ g.contextInvocations context, r.state = .runningLlm
      · obtain ⟨r,hr,hst⟩ := hrun
        rw [if_pos ⟨r,hr,hst⟩]
        exact iff_of_true (.inr (.inl rfl)) (.inl (.inr ⟨r,hr,.inl hst⟩))
      · rw [if_neg hrun]
        by_cases hfront : ∃ r ∈ g.contextInvocations context, r.state = .ready ∨ 0 < r.pendingMessages
        · rw [if_pos hfront]
          simp only [reduceCtorEq,false_or,true_and]
          constructor
          · rintro (hp | hallow)
            · exact .inl (.inl hp)
            · obtain ⟨r,hr,hst | hmsg⟩ := hfront
              · exact .inl (.inr ⟨r,hr,.inr ⟨hst,hallow⟩⟩)
              · by_cases hbusy : ∃ q ∈ g.contextInvocations context, Busy command q
                · exact .inl (.inr hbusy)
                · exact .inr ⟨hallow,fun q hq hb => hbusy ⟨q,hq,hb⟩,r,hr,hmsg⟩
          · rintro ((hp | ⟨r,hr,hst | ⟨-,hallow⟩⟩) | ⟨hallow,-⟩)
            · exact .inl hp
            · exact absurd ⟨r,hr,hst⟩ hrun
            · exact .inr hallow
            · exact .inr hallow
        · rw [if_neg hfront]
          constructor
          · rintro (hp | hrun' | ⟨hready,-⟩)
            · exact .inl (.inl hp)
            · split_ifs at hrun'
            · split_ifs at hready
          · rintro ((hp | ⟨r,hr,hst | ⟨hst,-⟩⟩) | ⟨-,-,r,hr,hmsg⟩)
            · exact .inl hp
            · exact absurd ⟨r,hr,hst⟩ hrun
            · exact absurd ⟨r,hr,.inl hst⟩ hfront
            · exact absurd ⟨r,hr,.inr hmsg⟩ hfront

/-- The settings of a command that are common to both ways to look at owners. -/
def previewOptions (command : ControlCommand) : PreviewOptions :=
  { allowReadyOwners := command.allowReadyOwners, protectedContextId := command.protectedContextId }

/-- The two ways to protect the owners of a page agree on it exactly when some owner is held, or
an owner that outlived its workflow comes together with one that has a message. The second way
goes by the leases. -/
theorem owners_protected_iff (strict : Bool) (events : List RuntimeEvent) (command : ControlCommand)
    (page : PhysicalPageRecord) :
    ((pageHasActiveOwner ((start strict).run events) command page = true ↔
        ownerBlockers ((start strict).run events) (previewOptions command) page ≠ []) ↔
      (∃ c ∈ page.ownerContexts.keys, ((start strict).run events).OwnerHeld command c) ∨
        ((∃ c ∈ page.ownerContexts.keys, ((start strict).run events).OwnerOutlived command c) ↔
          ∃ c ∈ page.ownerContexts.keys, ((start strict).run events).OwnerMessaged command c)) ∧
    (ownerBlockers ((start strict).run events) (previewOptions command) page ≠ [] ↔
      ∃ c ∈ page.ownerContexts.keys, some c = command.protectedContextId ∨
        (((start strict).run events).lease c).kind = .running ∨
        ((((start strict).run events).lease c).kind = .ready ∧ command.allowReadyOwners = false)) := by
  have hg : ((start strict).run events).Settled := run_started strict events
  have hblocks := ownerBlockers_ne_nil (g := (start strict).run events) command
    (previewOptions command) page rfl rfl rfl
  refine ⟨?_,hblocks⟩
  rw [hblocks,pageHasActiveOwner_iff]
  simp only [leaseBlocks_iff hg,and_or_left,exists_or]
  by_cases hheld : ∃ c ∈ page.ownerContexts.keys, ((start strict).run events).OwnerHeld command c
  · simp only [hheld,true_or]
  · simp only [hheld,false_or]

/-- A message reaches an invocation before it waits for a tool. -/
def messagedTool : List RuntimeEvent :=
  sampleStart ++ [sampleEvent "message to a" .message (some "b") (some "a") none,
    sampleEvent "tool of a" .toolStart (some "a") none none]

/-- A page of the invocation's context. -/
def messagedPage : PhysicalPageRecord :=
  { handle := ⟨0,0⟩
    sizeBytes := 1
    residency := .gpuOnly
    ownerContexts := (∅ : Dict String ℤ).insert "ca" 0 }

def messagedOffload : ControlCommand :=
  { commandId := "x", kind := .offloadContext, targets_nodup := List.nodup_nil }

/-- The leases protect the page of an invocation with a message, the arbiter does not. -/
theorem messaged_owner_unprotected :
    ¬ (pageHasActiveOwner ((start true).run messagedTool) messagedOffload messagedPage = true ↔
      ownerBlockers ((start true).run messagedTool) (previewOptions messagedOffload) messagedPage ≠ []) := by
  decide

end Owners
end RuntimeCausalContextGraph
end BeliefKV
