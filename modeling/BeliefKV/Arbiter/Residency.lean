import BeliefKV.PageIndex.Transfers
import BeliefKV.Arbiter.Selection
import BeliefKV.Controller.Execution

/-! Commands without a bundle keep the ancestors of GPU-resident pages on the GPU, at every
point of their execution. -/
namespace BeliefKV
open Relation Forest

namespace PageOwnershipIndex
variable {s t : PageOwnershipIndex}

/-- The live ancestors of every GPU-resident page are GPU-resident. -/
def AncestorClosed (s : PageOwnershipIndex) : Prop :=
  ∀ (h : PageHandle) (p : PhysicalPageRecord), s.pages[h]? = some p → p.gpuResident →
    ∀ (k : PageHandle) (q : PhysicalPageRecord), TransGen s.ParentEdge h k → s.pages[k]? = some q →
      q.live → q.gpuResident

/-- In a consistent index the ancestors of a GPU-resident page are all live. -/
theorem ancestorClosed_iff (hl : s.Linked) : s.AncestorClosed ↔ UpClosed s.ParentEdge s.OnGpu := by
  constructor
  · rintro hc h k ⟨p,hp,hgpu⟩ hpath
    obtain ⟨q,hq,hlive⟩ := hl.ancestor_live hpath.to_reflTransGen hp (live_of_gpuResident hgpu)
    exact ⟨q,hq,hc h p hp hgpu k q hpath hq (by simpa [PhysicalPageRecord.live] using hlive)⟩
  · intro hc h p hp hgpu k q hpath hq _
    obtain ⟨q',hq',hgpu'⟩ := hc h k ⟨p,hp,hgpu⟩ hpath
    rw [hq] at hq'
    exact Option.some.inj hq' ▸ hgpu'

/-- An update that leaves parents and residencies alone. -/
theorem updatePages_still {hs : Finset PageHandle} {f : PhysicalPageRecord → PhysicalPageRecord}
    (hf : ∀ p, (f p).parent = p.parent ∧ (f p).residency = p.residency) :
    (s.updatePages hs f).ParentEdge = s.ParentEdge ∧ (s.updatePages hs f).OnGpu = s.OnGpu := by
  have hgpu (p : PhysicalPageRecord) : (f p).gpuResident = p.gpuResident := by
    simp only [PhysicalPageRecord.gpuResident,(hf p).2]
  constructor
  · funext a b
    unfold ParentEdge
    rw [get_updatePages]
    split_ifs
    · cases hp : s.pages[a]? <;> simp [hf]
    · rfl
  · funext a
    unfold OnGpu
    rw [get_updatePages]
    split_ifs
    · cases hp : s.pages[a]? <;> simp [hgpu]
    · rfl

/-- A change of residency leaves the parents alone. -/
theorem moveResidency_parentEdge (h : PageHandle) (p : PhysicalPageRecord) (res : PhysicalResidency)
    (dir : Option TransferDirection) (ks : Finset Component) :
    (s.moveResidency h p res dir ks).ParentEdge = s.ParentEdge := by
  funext a b
  unfold ParentEdge
  rw [get_moveResidency]
  split_ifs with ha
  · subst ha
    cases hp : s.pages[a]? <;> simp
  · rfl

/-- Where a change of residency leaves the GPU copies. -/
theorem moveResidency_onGpu {h : PageHandle} {p : PhysicalPageRecord} (hp : s.pages[h]? = some p)
    (res : PhysicalResidency) (dir : Option TransferDirection) (ks : Finset Component) :
    (s.moveResidency h p res dir ks).OnGpu = fun k =>
      if k = h then res ∈ [.gpuOnly,.mirroring,.dualClean,.prefetching] else s.OnGpu k := by
  funext k
  unfold OnGpu
  rw [get_moveResidency]
  split_ifs with hk
  · simp [hp,PhysicalPageRecord.gpuResident]
  · rfl

theorem moveResidency_leaves {h : PageHandle} {p : PhysicalPageRecord} (hp : s.pages[h]? = some p)
    (dir : Option TransferDirection) (ks : Finset Component) :
    (s.moveResidency h p .cpuOnly dir ks).OnGpu = fun k => s.OnGpu k ∧ k ≠ h := by
  rw [moveResidency_onGpu hp]
  funext k
  by_cases hk : k = h <;> simp [hk]

theorem moveResidency_joins {h : PageHandle} {p : PhysicalPageRecord} (hp : s.pages[h]? = some p)
    {res : PhysicalResidency} (hres : res ∈ [.gpuOnly,.mirroring,.dualClean,.prefetching])
    (dir : Option TransferDirection) (ks : Finset Component) :
    (s.moveResidency h p res dir ks).OnGpu = fun k => s.OnGpu k ∨ k = h := by
  rw [moveResidency_onGpu hp]
  funext k
  by_cases hk : k = h
  · simpa [hk] using hres
  · simp [hk]

/-! ## Gates -/

/-- The calls on locks, readers and pins. -/
def Op.Gate : Op → Prop
  | .setEngineLock .. | .setActiveReaders .. | .pinContext .. | .unpinContext .. => True
  | _ => False

theorem sameRecords_still (h : SameRecords s t) : t.ParentEdge = s.ParentEdge ∧ t.OnGpu = s.OnGpu := by
  unfold ParentEdge OnGpu
  rw [h.pages]
  exact ⟨rfl,rfl⟩

/-- Gates neither move a page in the forest nor change its residency. -/
theorem gate_still {op : Op} (hop : op.Gate) :
    (s.step op).ParentEdge = s.ParentEdge ∧ (s.step op).OnGpu = s.OnGpu := by
  have htouch (u : PageOwnershipIndex) (t : Bool) (hs : Finset PageHandle) (cs : Finset String)
      (ks : Finset Component) := sameRecords_still (sameRecords_touch u t hs cs ks)
  unfold step
  cases hok : op.apply s with
  | error e => exact ⟨rfl,rfl⟩
  | ok s' =>
    cases op <;> simp only [Op.Gate] at hop <;> simp only [Op.apply] at hok
    case setEngineLock h value =>
      unfold setEngineLock at hok
      split_ifs at hok
      obtain ⟨p,-,hok⟩ := bind_eq_ok.mp hok
      cases hok
      split_ifs
      · exact updatePages_still fun _ => ⟨rfl,rfl⟩
      · exact ⟨rfl,rfl⟩
    case setActiveReaders h value =>
      unfold setActiveReaders at hok
      split_ifs at hok
      obtain ⟨p,-,hok⟩ := bind_eq_ok.mp hok
      cases hok
      split_ifs
      · exact updatePages_still fun _ => ⟨rfl,rfl⟩
      · exact ⟨rfl,rfl⟩
    case pinContext c =>
      cases hok
      unfold pinContext
      dsimp only
      split_ifs
      · exact updatePages_still fun _ => ⟨rfl,rfl⟩
      · exact ⟨rfl,rfl⟩
    case unpinContext c =>
      cases hok
      unfold unpinContext
      dsimp only
      split_ifs
      · exact updatePages_still fun _ => ⟨rfl,rfl⟩
      · exact ⟨rfl,rfl⟩

end PageOwnershipIndex

/-! ## The calls of a command -/

section Calls
open BeliefKVController PageOwnershipIndex
variable {s s' : PageOwnershipIndex} {d k : Prop}

theorem beginAction_effect {action : ResolvedPageAction} (hok : beginAction s action = .ok s') :
    Effect d k s s' := by
  unfold beginAction at hok
  cases ha : action.action <;> simp only [ha] at hok
  case startD2h | startH2d => exact beginTransfer_effect hok
  all_goals
    cases hok
    exact Effect.refl s

/-- A settled action other than a pin is one of the calls of the index. -/
theorem settleAction_effect {flight : InFlightCommand} {completed : Finset PageHandle}
    {action : ResolvedPageAction} (hpin : action.action ≠ .pin) (hunpin : action.action ≠ .unpin)
    (hok : settleAction flight completed s action = .ok s') : Effect d k s s' := by
  unfold settleAction at hok
  by_cases hc : action.handle ∈ completed
  · simp only [hc,not_true_eq_false,if_false] at hok
    cases ha : action.action <;> simp only [ha] at hok hpin hunpin
    case startD2h | startH2d =>
      split_ifs at hok
      exact completeTransfer_effect hok
    case commitCpu => exact commitCpu_effect hok
    case drop => exact dropPage_effect hok
    case dropHost => exact dropHostCopy_effect hok
    all_goals simp at hpin hunpin
  · simp only [hc,not_false_eq_true,if_true] at hok
    split_ifs at hok
    · exact abortTransfer_effect hok
    · cases hok
      exact Effect.refl s

end Calls

/-! ## Sessions -/

open BeliefKVController (actionTable setAction beginAction settleAction)

/-- An index while commands are carried out on it one after the other: the command in flight,
and its actions that are not completed yet. -/
structure Session where
  index : PageOwnershipIndex
  flight : Option InFlightCommand := none
  due : List ResolvedPageAction := []

namespace Session

/-- A transfer command that selects its own pages. -/
def Unbundled (command : ControlCommand) : Prop :=
  command.kind ∈ [.offloadContext,.shadowContext,.prefetchContext] ∧ command.physicalBundle = none

inductive Move
  | gate (op : PageOwnershipIndex.Op) (h : op.Gate)
  | dispatch (arbiter : RadixArbiter) (graph : RuntimeCausalContextGraph) (command : ControlCommand)
      (h : Unbundled command)
  | begin
  | complete

/-- The pages of a command start and complete in the order of its actions. A call that raises
changes nothing. -/
def step (t : Session) : Move → Session
  | .gate op _ => { t with index := t.index.step op }
  | .dispatch arbiter graph command _ =>
    let actions := (arbiter.resolve graph t.index command).pageActions
    if t.flight.isSome ∨ actions = [] then t
    else { t with
      flight := some { command := command, pageActions := actions }
      due := actionTable actions }
  | .begin =>
    match t.flight with
    | none => t
    | some flight =>
      match t.due.find? (·.handle ∉ flight.startedHandles) with
      | none => t
      | some action =>
        match beginAction t.index action with
        | .error _ => t
        | .ok index => { t with
            index := index
            flight := some { flight with
              startedHandles := insert action.handle flight.startedHandles } }
  | .complete =>
    match t.flight, t.due with
    | some flight, action :: rest =>
      match settleAction flight (flight.pageActions.map ResolvedPageAction.handle).toFinset t.index
          action with
      | .error _ => t
      | .ok index => { index := index, flight := if rest = [] then none else some flight, due := rest }
    | _, _ => t

def run (t : Session) (moves : List Move) : Session := moves.foldl step t

/-! ## What is still to be done fits the residencies -/

/-- Every GPU-resident descendant is among the pages before. -/
def LeavesFirst (s : PageOwnershipIndex) (before : Finset PageHandle) (h : PageHandle) : Prop :=
  ∀ d, s.OnGpu d → TransGen s.ParentEdge d h → d ∈ before

/-- Every ancestor is GPU-resident or among the pages before. -/
def RootsFirst (s : PageOwnershipIndex) (before : Finset PageHandle) (h : PageHandle) : Prop :=
  ∀ k, TransGen s.ParentEdge h k → s.OnGpu k ∨ k ∈ before

/-- The handles of a list of actions. -/
def handles (actions : List ResolvedPageAction) : List PageHandle :=
  actions.map ResolvedPageAction.handle

/-- The actions that have not started. -/
def waiting (flight : InFlightCommand) (due : List ResolvedPageAction) : List ResolvedPageAction :=
  due.filter (·.handle ∉ flight.startedHandles)

inductive Plan (s : PageOwnershipIndex) (flight : InFlightCommand) (due : List ResolvedPageAction) :
    Prop
  | offload (hkind : flight.command.kind = .offloadContext)
      (hact : ∀ a ∈ due, a.action = .startD2h ∨ a.action = .commitCpu)
      (hchain : Chained (LeavesFirst s) ∅ (handles due))
  | shadow (hkind : flight.command.kind = .shadowContext) (hact : ∀ a ∈ due, a.action = .startD2h)
      (hgpu : ∀ a ∈ due, a.handle ∈ flight.startedHandles → s.OnGpu a.handle)
  | prefetch (hkind : flight.command.kind = .prefetchContext)
      (hact : ∀ a ∈ due, a.action = .startH2d)
      (hgpu : ∀ a ∈ due, a.handle ∈ flight.startedHandles → s.OnGpu a.handle)
      (hchain : Chained (RootsFirst s) ∅ (handles (waiting flight due)))

structure Fits (t : Session) : Prop where
  inv : t.index.Inv
  closed : UpClosed t.index.ParentEdge t.index.OnGpu
  plan : ∀ flight, t.flight = some flight → Plan t.index flight t.due
  listed : ∀ flight, t.flight = some flight → ∀ a ∈ t.due, a.handle ∈ handles flight.pageActions

/-! ## Dispatch -/

theorem setAction_new {actions : List ResolvedPageAction} {a : ResolvedPageAction}
    (h : ∀ x ∈ actions, x.handle ≠ a.handle) : setAction actions a = actions ++ [a] := by
  induction actions with
  | nil => rfl
  | cons x xs ih =>
    rw [setAction,if_neg (h x (by simp)),ih fun y hy => h y (by simp [hy])]
    rfl

/-- Actions on distinct handles keep their order in the dictionary. -/
theorem actionTable_eq {actions : List ResolvedPageAction} (hn : (handles actions).Nodup) :
    actionTable actions = actions := by
  have hfold (xs acc : List ResolvedPageAction) (h : (handles (acc ++ xs)).Nodup) :
      xs.foldl setAction acc = acc ++ xs := by
    induction xs generalizing acc with
    | nil => simp
    | cons x xs ih =>
      have hx : ∀ y ∈ acc, y.handle ≠ x.handle := by
        intro y hy heq
        simp only [handles,List.map_append,List.map_cons] at h
        exact (List.nodup_append.mp h).2.2 y.handle (List.mem_map_of_mem hy) x.handle (by simp) heq
      rw [List.foldl_cons,setAction_new hx,ih _ (by simpa using h),List.append_assoc]
      rfl
  exact hfold actions [] (by simpa using hn)

/-- The handles of what a selection loop took. -/
theorem handles_taken (taken : List Candidate) :
    handles (taken.map fun c => c.1.act c.2) = taken.map (·.1.handle) := by
  simp [handles,Function.comp_def,PhysicalPageRecord.act]

theorem nodup_taken {candidates taken : List Candidate} (hsub : List.Sublist taken candidates)
    (hn : (candidates.map (·.1.handle)).Nodup) :
    (handles (taken.map fun c => c.1.act c.2)).Nodup := by
  rw [handles_taken]
  exact hn.sublist (hsub.map _)

section Dispatch
variable {a : RadixArbiter} {graph : RuntimeCausalContextGraph} {s : PageOwnershipIndex}
  {command : ControlCommand}

variable (a graph command) in
/-- What offload and shadow commands select: actions that fit the residencies, leaves first. -/
theorem offload_plan (hs : s.Inv) (shadow : Bool) (contextId : String) :
    ∃ taken : List Candidate, (a.resolveOffload graph s command shadow contextId).pageActions =
        taken.map (fun c => c.1.act c.2) ∧ (handles (taken.map fun c => c.1.act c.2)).Nodup ∧
      (∀ c ∈ taken, c.2 = .startD2h ∨ c.2 = .commitCpu ∧ shadow = false) ∧
      Chained (LeavesFirst s) ∅ (taken.map (·.1.handle)) := by
  have hrec (c : Candidate)
      (hc : c ∈ RadixArbiter.offloadCandidates graph s command shadow contextId) :=
    (PageOwnershipIndex.mem_contextRecords hs.toBase (RadixArbiter.mem_offloadCandidates hc).1).1
  obtain ⟨taken,hsub,hact,-,hchain⟩ := Selection.run_spec (P := LeavesFirst s) s.leafClosureAllows
    (a.offloadLimit command shadow)
    (RadixArbiter.offloadCandidates graph s command shadow contextId)
    (fun c hc selected hallow d hd hpath => by
      obtain ⟨p,hp,hgpu⟩ := hd
      exact PageOwnershipIndex.leafClosureAllows_sound hs.toLinked (hrec c hc) hallow hpath hp hgpu)
    {}
  refine ⟨taken,hact,
    nodup_taken hsub (RadixArbiter.offloadCandidates_nodup hs.toBase shadow contextId),?_,hchain⟩
  intro c hc
  rcases (RadixArbiter.scanOffload_some (RadixArbiter.mem_offloadCandidates (hsub.subset hc)).2).2
    with h | h
  · exact .inl h.2
  · exact .inr h.2

variable (a command) in
/-- What a prefetch command selects: loads, roots first. -/
theorem prefetch_plan (hs : s.Inv) (contextId : String) :
    ∃ taken : List Candidate, (a.resolvePrefetch s command contextId).pageActions =
        taken.map (fun c => c.1.act c.2) ∧ (handles (taken.map fun c => c.1.act c.2)).Nodup ∧
      (∀ c ∈ taken, c.2 = .startH2d) ∧ Chained (RootsFirst s) ∅ (taken.map (·.1.handle)) := by
  have hrec (c : Candidate) (hc : c ∈ RadixArbiter.prefetchCandidates s contextId) :=
    PageOwnershipIndex.mem_contextRecords hs.toBase (RadixArbiter.mem_prefetchCandidates hc).1
  obtain ⟨taken,hsub,hact,-,hchain⟩ := Selection.run_spec (P := RootsFirst s)
    (fun page selected => s.prefetchClosureAllows selected (s.pages.size + 1) page.parent)
    (a.limit command) (RadixArbiter.prefetchCandidates s contextId)
    (fun c hc selected hallow k hpath => by
      obtain ⟨hp,hlive,-⟩ := hrec c hc
      obtain ⟨q,⟨p,hp',hq⟩,hrest⟩ := TransGen.head'_iff.mp hpath
      rw [hp] at hp'
      obtain rfl := Option.some.inj hp'
      obtain ⟨r,hr,-⟩ := hs.toLinked.ancestor_live hpath.to_reflTransGen hp
        (by simpa [PhysicalPageRecord.live] using hlive)
      rcases PageOwnershipIndex.prefetchClosureAllows_sound hallow hq hrest hr with h | h
      · exact .inl ⟨r,hr,h⟩
      · exact .inr h)
    {}
  refine ⟨taken,hact,
    nodup_taken hsub (RadixArbiter.prefetchCandidates_nodup hs.toBase contextId),?_,hchain⟩
  intro c hc
  exact (RadixArbiter.mem_prefetchCandidates (hsub.subset hc)).2.2.2

theorem waiting_none (command : ControlCommand) (actions due : List ResolvedPageAction) :
    waiting { command := command, pageActions := actions } due = due := by
  simp [waiting]

/-- A dispatched command comes with a plan. -/
theorem dispatch_plan (hs : s.Inv) (hu : Unbundled command)
    (hne : (a.resolve graph s command).pageActions ≠ []) :
    Plan s { command := command, pageActions := (a.resolve graph s command).pageActions }
      (actionTable (a.resolve graph s command).pageActions) := by
  obtain ⟨hkind,hbundle⟩ := hu
  have hres := RadixArbiter.resolve_cases hne
  rcases hres with ⟨hk,-⟩ | ⟨c,e,context,-,-,-,-,-,⟨intent,hi,-⟩ | ⟨-,heq⟩⟩
  · simp [hk] at hkind
  · rw [hbundle] at hi
    cases hi
  rw [heq]
  simp only [List.mem_cons,List.not_mem_nil,or_false] at hkind
  rcases hkind with hk | hk | hk
  · obtain ⟨taken,hact,hn,hfit,hchain⟩ := offload_plan a graph command hs false c
    simp only [RadixArbiter.resolveKind,hk,hact,actionTable_eq hn]
    refine .offload hk ?_ (by rwa [handles_taken])
    intro x hx
    obtain ⟨y,hy,rfl⟩ := List.mem_map.mp hx
    exact (hfit y hy).imp_right And.left
  · obtain ⟨taken,hact,hn,hfit,-⟩ := offload_plan a graph command hs true c
    simp only [RadixArbiter.resolveKind,hk,hact,actionTable_eq hn]
    refine .shadow hk ?_ (by simp)
    intro x hx
    obtain ⟨y,hy,rfl⟩ := List.mem_map.mp hx
    rcases hfit y hy with h | ⟨-,h⟩
    · exact h
    · cases h
  · obtain ⟨taken,hact,hn,hfit,hchain⟩ := prefetch_plan a command hs c
    simp only [RadixArbiter.resolveKind,hk,hact,actionTable_eq hn]
    refine .prefetch hk ?_ (by simp) (by rwa [waiting_none,handles_taken])
    intro x hx
    obtain ⟨y,hy,rfl⟩ := List.mem_map.mp hx
    exact hfit y hy

end Dispatch

/-! ## Steps -/

section Steps
variable {s s' : PageOwnershipIndex} {flight : InFlightCommand} {due : List ResolvedPageAction}

theorem Plan.of_still (hp : Plan s flight due) (hedge : s'.ParentEdge = s.ParentEdge)
    (hgpu : s'.OnGpu = s.OnGpu) : Plan s' flight due := by
  have hl : LeavesFirst s' = LeavesFirst s := by
    unfold LeavesFirst
    rw [hedge,hgpu]
  have hr : RootsFirst s' = RootsFirst s := by
    unfold RootsFirst
    rw [hedge,hgpu]
  cases hp with
  | offload hkind hact hchain => exact .offload hkind hact (by rwa [hl])
  | shadow hkind hact h => exact .shadow hkind hact (by rwa [hgpu])
  | prefetch hkind hact h hchain => exact .prefetch hkind hact (by rwa [hgpu]) (by rwa [hr])

/-- Pages that became resident need not be waited for any more. -/
theorem roots_filter {P : PageHandle → Bool} {before before' : Finset PageHandle}
    {hs : List PageHandle} (hedge : s'.ParentEdge = s.ParentEdge) (hmono : ∀ h, s.OnGpu h → s'.OnGpu h)
    (hbefore : ∀ h ∈ before, s'.OnGpu h ∨ h ∈ before') (hP : ∀ h ∈ hs, P h = false → s'.OnGpu h)
    (hc : Chained (RootsFirst s) before hs) : Chained (RootsFirst s') before' (hs.filter P) := by
  induction hs generalizing before before' with
  | nil => trivial
  | cons h hs ih =>
    have htail := fun x hx => hP x (List.mem_cons_of_mem h hx)
    cases hPh : P h with
    | false =>
      rw [List.filter_cons_of_neg (by simp [hPh])]
      refine ih (fun x hx => ?_) htail hc.2
      rcases Finset.mem_insert.mp hx with rfl | hx
      · exact .inl (hP x (by simp) hPh)
      · exact hbefore x hx
    | true =>
      rw [List.filter_cons_of_pos hPh]
      refine ⟨fun k hk => ?_,ih (fun x hx => ?_) htail hc.2⟩
      · rw [hedge] at hk
        rcases hc.1 k hk with hg | hb
        · exact .inl (hmono k hg)
        · exact hbefore k hb
      · rcases Finset.mem_insert.mp hx with rfl | hx
        · exact .inr (by simp)
        · exact (hbefore x hx).imp_right (by simp +contextual)

/-- Pages that left the GPU are no descendants to wait for any more. -/
theorem leaves_after {h : PageHandle} {before before' : Finset PageHandle} {hs : List PageHandle}
    (hedge : s'.ParentEdge = s.ParentEdge) (hgpu : s'.OnGpu = fun k => s.OnGpu k ∧ k ≠ h)
    (hbefore : ∀ k ∈ before, k ≠ h → k ∈ before') (hc : Chained (LeavesFirst s) before hs) :
    Chained (LeavesFirst s') before' hs := by
  induction hs generalizing before before' with
  | nil => trivial
  | cons x hs ih =>
    refine ⟨fun d hd hpath => ?_,ih (fun k hk hne => ?_) hc.2⟩
    · rw [hgpu] at hd
      rw [hedge] at hpath
      exact hbefore d (hc.1 d hd.1 hpath) hd.2
    · rcases Finset.mem_insert.mp hk with rfl | hk
      · simp
      · simp [hbefore k hk hne]

/-- Starting the first waiting page keeps the plan. -/
theorem begin_plan (hc : UpClosed s.ParentEdge s.OnGpu) (hp : Plan s flight due)
    {action : ResolvedPageAction} (hfind : due.find? (·.handle ∉ flight.startedHandles) = some action)
    (hok : beginAction s action = .ok s') :
    UpClosed s'.ParentEdge s'.OnGpu ∧ Plan s'
      { flight with startedHandles := insert action.handle flight.startedHandles } due := by
  have hmem := List.mem_of_find?_eq_some hfind
  have hd2h (ha : action.action = .startD2h) : s'.ParentEdge = s.ParentEdge ∧ s'.OnGpu = s.OnGpu ∧
      s.OnGpu action.handle := by
    rw [beginAction,ha] at hok
    obtain ⟨p,hreq,-,hres,rfl⟩ := PageOwnershipIndex.beginTransfer_eq_ok.mp hok
    have hp := (PageOwnershipIndex.requirePage_eq_ok.mp hreq).1
    have hgpu : s.OnGpu action.handle := ⟨p,hp,by simp [PhysicalPageRecord.gpuResident,hres,
      PageOwnershipIndex.departure]⟩
    refine ⟨PageOwnershipIndex.moveResidency_parentEdge ..,?_,hgpu⟩
    rw [PageOwnershipIndex.moveResidency_joins hp (by simp [PageOwnershipIndex.underway])]
    funext k
    simp only [eq_iff_iff,or_iff_left_iff_imp]
    rintro rfl
    exact hgpu
  cases hp with
  | offload hkind hact hchain =>
    have hstill : s'.ParentEdge = s.ParentEdge ∧ s'.OnGpu = s.OnGpu := by
      rcases hact action hmem with ha | ha
      · exact ⟨(hd2h ha).1,(hd2h ha).2.1⟩
      · rw [beginAction,ha] at hok
        cases hok
        exact ⟨rfl,rfl⟩
    rw [hstill.1,hstill.2]
    refine ⟨hc,Plan.of_still (s := s) ?_ hstill.1 hstill.2⟩
    exact .offload hkind hact hchain
  | shadow hkind hact hgpu =>
    obtain ⟨hedge,hsame,hon⟩ := hd2h (hact action hmem)
    rw [hedge,hsame]
    refine ⟨hc,Plan.of_still (s := s) (.shadow hkind hact fun x hx hstarted => ?_) hedge hsame⟩
    rcases Finset.mem_insert.mp hstarted with h | h
    · rw [h]
      exact hon
    · exact hgpu x hx h
  | prefetch hkind hact hgpu hchain =>
    rw [beginAction,hact action hmem] at hok
    obtain ⟨p,hreq,-,hres,rfl⟩ := PageOwnershipIndex.beginTransfer_eq_ok.mp hok
    have hpage := (PageOwnershipIndex.requirePage_eq_ok.mp hreq).1
    have hedge := PageOwnershipIndex.moveResidency_parentEdge (s := s) action.handle p
      (PageOwnershipIndex.underway .h2d) (some .h2d) {.residency,.transfer}
    have hjoin := PageOwnershipIndex.moveResidency_joins hpage
      (show PageOwnershipIndex.underway .h2d ∈ [PhysicalResidency.gpuOnly,.mirroring,.dualClean,
        .prefetching] by simp [PageOwnershipIndex.underway]) (some .h2d)
      {.residency,.transfer}
    obtain ⟨rest,hwait⟩ : ∃ rest, waiting flight due = action :: rest := by
      rw [← List.head?_filter] at hfind
      exact ⟨_,List.eq_cons_of_mem_head? hfind⟩
    rw [hwait] at hchain
    -- The first waiting page has all its ancestors on the GPU.
    have habove (k : PageHandle) (hk : TransGen s.ParentEdge action.handle k) : s.OnGpu k := by
      rcases hchain.1 k hk with h | h
      · exact h
      · simp at h
    rw [hedge,hjoin]
    refine ⟨hc.join habove,.prefetch hkind hact ?_ ?_⟩
    · intro x hx hstarted
      rw [hjoin]
      rcases Finset.mem_insert.mp hstarted with h | h
      · exact .inr h
      · exact .inl (hgpu x hx h)
    · have hwait' : handles (waiting { flight with
          startedHandles := insert action.handle flight.startedHandles } due) =
          (handles (waiting flight due)).filter (· ≠ action.handle) := by
        simp only [waiting,handles,List.filter_map,List.filter_filter]
        congr 1
        apply List.filter_congr
        intro x _
        simp [not_or]
      rw [hwait',hwait]
      refine roots_filter (s := s) hedge (fun k hk => ?_) (by simp) (fun k _ hk => ?_)
        hchain
      · rw [hjoin]
        exact .inl hk
      · rw [hjoin]
        exact .inr (by simpa using hk)

/-- A completed offload takes the page off the GPU. -/
theorem settle_offload {action : ResolvedPageAction} {completed : Finset PageHandle}
    (hmem : action.handle ∈ completed) (hkind : flight.command.kind = .offloadContext)
    (hact : action.action = .startD2h ∨ action.action = .commitCpu)
    (hok : settleAction flight completed s action = .ok s') :
    s'.ParentEdge = s.ParentEdge ∧ s'.OnGpu = fun k => s.OnGpu k ∧ k ≠ action.handle := by
  simp only [settleAction,hmem,not_true_eq_false,if_false] at hok
  rcases hact with ha | ha <;> simp only [ha] at hok
  · split_ifs at hok
    rw [show decide (flight.command.kind = .shadowContext) = false by simp [hkind]] at hok
    obtain ⟨p,hreq,-,rfl⟩ := PageOwnershipIndex.completeTransfer_eq_ok.mp hok
    have hp := (PageOwnershipIndex.requirePage_eq_ok.mp hreq).1
    exact ⟨PageOwnershipIndex.moveResidency_parentEdge ..,
      PageOwnershipIndex.moveResidency_leaves hp _ _⟩
  · obtain ⟨p,hreq,⟨hres,rfl⟩ | ⟨-,rfl⟩⟩ := PageOwnershipIndex.commitCpu_eq_ok.mp hok
    · have hp := (PageOwnershipIndex.requirePage_eq_ok.mp hreq).1
      refine ⟨rfl,?_⟩
      funext k
      simp only [eq_iff_iff,iff_self_and]
      rintro ⟨q,hq,hgpu⟩ rfl
      rw [hp] at hq
      obtain rfl := Option.some.inj hq
      simp [PhysicalPageRecord.gpuResident,hres] at hgpu
    · have hp := (PageOwnershipIndex.requirePage_eq_ok.mp hreq).1
      exact ⟨PageOwnershipIndex.moveResidency_parentEdge ..,
        PageOwnershipIndex.moveResidency_leaves hp _ _⟩

/-- A completed load or shadow copy leaves a page that is on the GPU there. -/
theorem settle_kept {action : ResolvedPageAction} {completed : Finset PageHandle}
    (hmem : action.handle ∈ completed)
    (hact : action.action = .startH2d ∨
      action.action = .startD2h ∧ flight.command.kind = .shadowContext)
    (hgpu : action.handle ∈ flight.startedHandles → s.OnGpu action.handle)
    (hok : settleAction flight completed s action = .ok s') :
    action.handle ∈ flight.startedHandles ∧ s'.ParentEdge = s.ParentEdge ∧ s'.OnGpu = s.OnGpu := by
  have hmove (dir : TransferDirection) (hstarted : action.handle ∈ flight.startedHandles)
      (hok : s.completeTransfer action.handle dir = .ok s') :
      s'.ParentEdge = s.ParentEdge ∧ s'.OnGpu = s.OnGpu := by
    obtain ⟨p,hreq,-,rfl⟩ := PageOwnershipIndex.completeTransfer_eq_ok.mp hok
    have hp := (PageOwnershipIndex.requirePage_eq_ok.mp hreq).1
    refine ⟨PageOwnershipIndex.moveResidency_parentEdge ..,?_⟩
    rw [PageOwnershipIndex.moveResidency_joins hp (by simp [PageOwnershipIndex.arrival])]
    funext k
    simp only [eq_iff_iff,or_iff_left_iff_imp]
    rintro rfl
    exact hgpu hstarted
  simp only [settleAction,hmem,not_true_eq_false,if_false] at hok
  rcases hact with ha | ⟨ha,hkind⟩ <;> simp only [ha] at hok <;> split_ifs at hok with hstarted
  · exact ⟨hstarted,hmove .h2d hstarted hok⟩
  · rw [show decide (flight.command.kind = .shadowContext) = true by simp [hkind]] at hok
    exact ⟨hstarted,hmove .d2h hstarted hok⟩

/-- Completing the first page keeps the plan of the others. -/
theorem complete_plan {action : ResolvedPageAction} {rest : List ResolvedPageAction}
    {completed : Finset PageHandle} (hmem : action.handle ∈ completed)
    (hc : UpClosed s.ParentEdge s.OnGpu) (hp : Plan s flight (action :: rest))
    (hok : settleAction flight completed s action = .ok s') :
    UpClosed s'.ParentEdge s'.OnGpu ∧ Plan s' flight rest := by
  cases hp with
  | offload hkind hact hchain =>
    obtain ⟨hedge,hgpu⟩ := settle_offload hmem hkind (hact action (by simp)) hok
    constructor
    · rw [hedge,hgpu]
      refine hc.leave fun d hd hpath => ?_
      have := hchain.1 d hd hpath
      simp at this
    · refine .offload hkind (fun x hx => hact x (by simp [hx])) ?_
      refine leaves_after hedge hgpu (fun k hk hne => ?_) hchain.2
      simp [hne] at hk
  | shadow hkind hact hgpu =>
    obtain ⟨-,hedge,hsame⟩ := settle_kept hmem (.inr ⟨hact action (by simp),hkind⟩)
      (hgpu action (by simp)) hok
    rw [hedge,hsame]
    refine ⟨hc,Plan.of_still (s := s) (.shadow hkind (fun x hx => hact x (by simp [hx])) ?_) hedge
      hsame⟩
    exact fun x hx => hgpu x (by simp [hx])
  | prefetch hkind hact hgpu hchain =>
    obtain ⟨hstarted,hedge,hsame⟩ := settle_kept hmem (.inl (hact action (by simp)))
      (hgpu action (by simp)) hok
    rw [hedge,hsame]
    refine ⟨hc,Plan.of_still (s := s) (.prefetch hkind (fun x hx => hact x (by simp [hx])) ?_ ?_)
      hedge hsame⟩
    · exact fun x hx => hgpu x (by simp [hx])
    · simpa [waiting,hstarted] using hchain

end Steps

/-! ## Runs -/

/-- The actions of a plan are transfers. -/
theorem Plan.transfers {s : PageOwnershipIndex} {flight : InFlightCommand}
    {due : List ResolvedPageAction} (hp : Plan s flight due) {a : ResolvedPageAction} (ha : a ∈ due) :
    a.action ≠ .pin ∧ a.action ≠ .unpin := by
  cases hp with
  | offload _ hact _ => rcases hact a ha with h | h <;> simp [h]
  | shadow _ hact _ => simp [hact a ha]
  | prefetch _ hact _ _ => simp [hact a ha]

theorem fits_gate {t : Session} (ht : t.Fits) {op : PageOwnershipIndex.Op} (hop : op.Gate) :
    Fits { t with index := t.index.step op } := by
  obtain ⟨hedge,hgpu⟩ := PageOwnershipIndex.gate_still (s := t.index) hop
  refine ⟨PageOwnershipIndex.step_inv ht.inv ?_,?_,?_,ht.listed⟩
  · cases op <;> simp only [PageOwnershipIndex.Op.Gate] at hop <;> trivial
  · dsimp only
    rw [hedge,hgpu]
    exact ht.closed
  · exact fun flight hf => (ht.plan flight hf).of_still hedge hgpu

theorem mem_actionTable {actions : List ResolvedPageAction} {x : ResolvedPageAction}
    (hx : x ∈ actionTable actions) : x ∈ actions := by
  have hset (acc : List ResolvedPageAction) (a y : ResolvedPageAction) (hy : y ∈ setAction acc a) :
      y ∈ acc ∨ y = a := by
    induction acc with
    | nil => simpa [setAction] using hy
    | cons z acc ih =>
      rw [setAction] at hy
      split_ifs at hy
      · rcases List.mem_cons.mp hy with h | h
        · exact .inr h
        · exact .inl (List.mem_cons_of_mem z h)
      · rcases List.mem_cons.mp hy with rfl | h
        · exact .inl (by simp)
        · exact (ih h).imp_left (List.mem_cons_of_mem z)
  have hfold (xs acc : List ResolvedPageAction) (h : x ∈ xs.foldl setAction acc) :
      x ∈ acc ∨ x ∈ xs := by
    induction xs generalizing acc with
    | nil => exact .inl h
    | cons a xs ih =>
      rcases ih (setAction acc a) h with h | h
      · rcases hset acc a x h with h | rfl
        · exact .inl h
        · exact .inr (by simp)
      · exact .inr (List.mem_cons_of_mem a h)
  rcases hfold actions [] hx with h | h
  · cases h
  · exact h

/-- No move breaks the plan or leaves a GPU-resident page below one that is not. -/
theorem Fits.step {t : Session} (ht : t.Fits) (move : Move) : (t.step move).Fits := by
  cases move with
  | gate op hop => exact fits_gate ht hop
  | dispatch arbiter graph command hu =>
    unfold Session.step
    dsimp only
    split_ifs with hskip
    · exact ht
    · rw [not_or] at hskip
      refine ⟨ht.inv,ht.closed,?_,?_⟩
      · rintro flight ⟨⟩
        exact dispatch_plan ht.inv hu hskip.2
      · rintro flight ⟨⟩ a ha
        exact List.mem_map_of_mem (mem_actionTable ha)
  | begin =>
    unfold Session.step
    cases hf : t.flight with
    | none => exact ht
    | some flight =>
      cases hfind : t.due.find? (·.handle ∉ flight.startedHandles) with
      | none =>
        simp only [hfind]
        exact ht
      | some action =>
        cases hok : beginAction t.index action with
        | error e =>
          simp only [hfind,hok]
          exact ht
        | ok index =>
          simp only [hfind,hok]
          obtain ⟨hclosed,hplan⟩ := begin_plan ht.closed (ht.plan flight hf) hfind hok
          refine ⟨(beginAction_effect (d := True) (k := True) hok).inv ht.inv trivial,hclosed,?_,?_⟩
          · rintro _ ⟨⟩
            exact hplan
          · rintro _ ⟨⟩
            exact ht.listed flight hf
  | complete =>
    unfold Session.step
    cases hf : t.flight with
    | none => exact ht
    | some flight =>
      cases hd : t.due with
      | nil => exact ht
      | cons action rest =>
        cases hok : settleAction flight (flight.pageActions.map ResolvedPageAction.handle).toFinset
          t.index action with
        | error e =>
          simp only [hok]
          exact ht
        | ok index =>
          simp only [hok]
          have hp := ht.plan flight hf
          rw [hd] at hp
          have hlisted := ht.listed flight hf
          rw [hd] at hlisted
          have hmem : action.handle ∈ (flight.pageActions.map ResolvedPageAction.handle).toFinset :=
            List.mem_toFinset.mpr (hlisted action (by simp))
          obtain ⟨hclosed,hplan⟩ := complete_plan hmem ht.closed hp hok
          obtain ⟨hpin,hunpin⟩ := hp.transfers (a := action) (by simp)
          refine ⟨(settleAction_effect (d := True) (k := True) hpin hunpin hok).inv ht.inv trivial,
            hclosed,?_,?_⟩
          · intro f hflight
            dsimp only at hflight
            split_ifs at hflight
            obtain rfl := Option.some.inj hflight
            exact hplan
          · intro f hflight a ha
            dsimp only at hflight
            split_ifs at hflight
            obtain rfl := Option.some.inj hflight
            exact hlisted a (by simp [ha])

/-- From every consistent index in which the live ancestors of GPU-resident pages are on the
GPU, commands without a bundle, in any order and with locks, readers and pins changing at any
time, reach only such indexes, after every single page they start or complete. -/
theorem ancestors_stay_resident (index : PageOwnershipIndex) (hs : index.Inv)
    (hc : index.AncestorClosed) (moves : List Move) :
    (run { index := index } moves).index.AncestorClosed := by
  have hfits : (run { index := index } moves).Fits := by
    refine List.foldlRecOn (motive := Fits) moves step ?_ fun t ht move _ => ht.step move
    exact ⟨hs,(PageOwnershipIndex.ancestorClosed_iff hs.toLinked).mp hc,by rintro _ ⟨⟩,by rintro _ ⟨⟩⟩
  exact (PageOwnershipIndex.ancestorClosed_iff hfits.inv.toLinked).mpr hfits.closed

/-- A root and its child, both on the GPU and owned by one context. -/
def sampleForest : List PageOwnershipIndex.Op :=
  [.registerContext "c" "w" 0,.registerPage ⟨0,0⟩ 1 .gpuOnly 0 none true 0,
    .registerPage ⟨1,0⟩ 1 .gpuOnly 1 (some ⟨0,0⟩) true 0,.bindPages "c" 0 [⟨0,0⟩,⟨1,0⟩] false]

/-- A graph that knows the context, which has no invocations. -/
def sampleGraph : RuntimeCausalContextGraph :=
  { contexts := Std.ExtTreeMap.empty.insert "c"
      { workflowId := "w", contextId := "c", epoch := 0, createdTsMs := 0, updatedTsMs := 0 } }

def sampleArbiter : RadixArbiter := { digests := ⟨fun _ => "",fun _ => ""⟩ }

def sampleOffload : ControlCommand :=
  { commandId := "x"
    kind := .offloadContext
    contextId := some "c"
    contextEpoch := some 0
    targetBytes := 1
    targets_nodup := List.nodup_nil }

/-- The offload of one byte takes the leaf off the GPU and leaves the root there. -/
theorem ancestors_stay_resident_sample :
    let t := run { index := PageOwnershipIndex.empty.run sampleForest }
      [.dispatch sampleArbiter sampleGraph sampleOffload ⟨by decide,rfl⟩,.begin,
        .gate (.setEngineLock ⟨0,0⟩ 1) trivial,.complete]
    t.index.pages.vals.map (·.residency) = [.gpuOnly,.cpuOnly] ∧ t.index.AncestorClosed := by
  have hgpu : ∀ p ∈ (PageOwnershipIndex.empty.run sampleForest).pages.vals, p.gpuResident := by
    decide
  refine ⟨by decide,ancestors_stay_resident _ (PageOwnershipIndex.run_inv _ (by decide)) ?_ _⟩
  intro _ _ _ _ k q _ hq _
  exact hgpu q ((Dict.mem_vals _ _).mpr ⟨k,hq⟩)

end Session
end BeliefKV
