import Mathlib.Logic.Relation
import BeliefKV.WhatIf.Agreement
import BeliefKV.Queue.Simulation

/-! The operations that a simulation is made of. -/
namespace BeliefKV.QueueService

/-- A loop keeps an invariant if a round keeps it and what the later rounds need. -/
theorem foldlM_keeps {σ α : Type} {f : σ → α → Except Raised σ} {I : σ → Prop} {Q : σ → α → Prop}
    (l : List α) (hnodup : l.Nodup)
    (hstep : ∀ s, ∀ a ∈ l, I s → Q s a → Yields (f s a) fun t => I t ∧
      ∀ b ∈ l, b ≠ a → Q s b → Q t b) :
    ∀ s, I s → (∀ a ∈ l, Q s a) → Yields (l.foldlM f s) I := by
  induction l with
  | nil =>
    intro s hs _
    exact Yields.ok hs
  | cons a l ih =>
    intro s hs hall
    obtain ⟨ha,hnodup⟩ := List.nodup_cons.mp hnodup
    rw [List.foldlM_cons]
    refine Yields.bind fun t ht => ?_
    obtain ⟨hi,hframe⟩ := hstep s a List.mem_cons_self hs (hall a List.mem_cons_self) t ht
    refine ih hnodup (fun s b hb hs hq => ?_) t hi fun b hb => ?_
    · intro u hu
      obtain ⟨hu,hrest⟩ := hstep s b (List.mem_cons_of_mem _ hb) hs hq u hu
      exact ⟨hu,fun c hc => hrest c (List.mem_cons_of_mem _ hc)⟩
    · have hne : b ≠ a := fun heq => ha (heq ▸ hb)
      exact hframe b (List.mem_cons_of_mem _ hb) hne (hall b (List.mem_cons_of_mem _ hb))

section Steps
variable (fl : ℚ → ℚ) (order : Finset String → List String) (model : QueueServiceModel)
  (input : PolicyInput) (demand : ScenarioDemand) (plan : ScenarioPlan)
  (workload : FrozenCounterfactualWorkload)

/-- A batch is made of admitted requests that only have to be decoded. -/
def Decodable (s : Simulation) (batch : List RequestState) : Prop :=
  ∀ r ∈ batch, r ∈ s.states ∧ r.active = true ∧ r.prefillRemaining = 0 ∧ 0 < r.decodeRemaining

inductive Step : Simulation → Simulation → Prop
  | event {s : Simulation} {e : PhysicalEvent} {rest : List PhysicalEvent} (hpending : s.pending = e :: rest)
      (hdue : isDue fl s.nowMs e.tsMs = true)
      (hcheck : checkAllocator input (s.physical.apply e) s.requestReservedBytes = .ok ()) :
      Step s (s.moved { s with physical := s.physical.apply e, pending := rest })
  | release (s : Simulation) : Step s (releaseRequests fl workload s)
  | init {s : Simulation} {radix : TrieNode} (hradix : s.radix = some radix) :
      Step s { s with states := s.states.map (initRadix workload radix) }
  | admits {s : Simulation} {r : RequestState} (hr : r ∈ s.states) (hwaiting : r.waiting = true)
      (hfits : admissible order input demand plan s r = .ok true) : Step s (s.moved (admitted s r))
  | mark {s : Simulation} {r : RequestState} (hr : r ∈ s.states) (hactive : r.active = true) :
      Step s (s.put (markFirstService s.nowMs r))
  | complete {s : Simulation} {r : RequestState} (hr : r ∈ s.states) (hactive : r.active = true)
      (hdone : r.done = true) (hserved : r.firstServiceMs.isSome)
      (hcheck : checkAllocator input (completed workload s r).physical
        (completed workload s r).requestReservedBytes = .ok ()) :
      Step s (s.moved (completed workload s r))
  | prefill {s : Simulation} {r : RequestState} {elapsed : ℚ} (hr : r ∈ s.states) (hactive : r.active = true)
      (hremaining : 0 < r.prefillRemaining)
      (helapsed : model.prefillElapsedMs fl (prefillTokens model r) r.prefillChunkIndex = .ok elapsed) :
      Step s (prefilled fl model s r elapsed)
  | decode {s : Simulation} {batch : List RequestState} {rate : ℚ} (hbatch : Decodable s batch)
      (hrate : model.decodeRate fl batch.length = .ok rate) :
      Step s (decoded fl model s batch
        (fl (model.decodeLaunchMs + fl (((batch.map (decodeTokens model)).sum : ℕ) / rate))))
  | advance {s : Simulation} {t : ℚ} (ht : t ∈ futureTimes fl workload s) : Step s { s with nowMs := t }
  | record (s : Simulation) : Step s { s with hbmPeak := max s.hbmPeak s.occupied }

abbrev Steps : Simulation → Simulation → Prop :=
  Relation.ReflTransGen (Step fl order model input demand plan workload)

end Steps

/-! ## The states of the requests -/

namespace Simulation
variable {s : Simulation} {r q : RequestState}

def ids (s : Simulation) : List String := s.states.map (·.id)

theorem ids_map {f : RequestState → RequestState} (h : ∀ r, (f r).id = r.id) :
    (s.states.map f).map (·.id) = s.ids := by
  rw [List.map_map,ids]
  exact List.map_congr_left fun r _ => h r

theorem ids_put : (s.put r).ids = s.ids := by
  refine ids_map fun q => ?_
  split_ifs with h
  · exact h.symm
  · rfl

@[simp] theorem ids_moved {t : Simulation} : (s.moved t).ids = t.ids := rfl

theorem mem_put (h : q ∈ s.states) (hid : q.id = r.id) : r ∈ (s.put r).states :=
  List.mem_map.mpr ⟨q,h,if_pos hid⟩

theorem mem_put_of_ne (h : q ∈ s.states) (hne : q.id ≠ r.id) : q ∈ (s.put r).states :=
  List.mem_map.mpr ⟨q,h,if_neg hne⟩

theorem put_put (hid : q.id = r.id) : (s.put q).put r = s.put r := by
  unfold put
  simp only [List.map_map,Function.comp_def]
  congr 1
  refine List.map_congr_left fun p _ => ?_
  split_ifs <;> simp_all

theorem eq_of_id (hids : s.ids.Nodup) (hq : q ∈ s.states) (hr : r ∈ s.states) (h : q.id = r.id) : q = r :=
  List.inj_on_of_nodup_map hids hq hr h

theorem nodup_states (hids : s.ids.Nodup) : s.states.Nodup := hids.of_map

end Simulation

section Requests
variable (fl : ℚ → ℚ) (model : QueueServiceModel) (workload : FrozenCounterfactualWorkload)
  (s : Simulation) (r : RequestState)

@[simp] theorem releaseRequest_demand : (releaseRequest fl workload s r).demand = r.demand := by
  unfold releaseRequest
  split
  · rfl
  · split_ifs <;> rfl

@[simp] theorem initRadix_demand (radix : TrieNode) : (initRadix workload radix r).demand = r.demand := by
  unfold initRadix
  split_ifs <;> rfl

@[simp] theorem markFirstService_demand (nowMs : ℚ) : (markFirstService nowMs r).demand = r.demand := rfl

@[simp] theorem finished_demand (nowMs : ℚ) : (finished nowMs r).demand = r.demand := rfl

@[simp] theorem requestGrowth_demand (radix : Option TrieNode) :
    (requestGrowth workload radix r).2.1.demand = r.demand := by
  cases radix <;> rfl

@[simp] theorem prefillChunk_demand (radix : Option TrieNode) (nowMs : ℚ) :
    (prefillChunk model radix nowMs r).2.demand = r.demand := by
  cases radix <;> rfl

@[simp] theorem decodeRequest_demand (nowMs elapsedMs : ℚ) :
    (decodeRequest fl model nowMs elapsedMs r).demand = r.demand := rfl

end Requests

section Ids
variable {fl : ℚ → ℚ} {order : Finset String → List String} {model : QueueServiceModel}
  {input : PolicyInput} {demand : ScenarioDemand} {plan : ScenarioPlan}
  {workload : FrozenCounterfactualWorkload} {s t : Simulation}

theorem ids_completed (r : RequestState) : (completed workload s r).ids = s.ids := by
  unfold completed Simulation.ids
  refine Eq.trans ?_ (Simulation.ids_put (s := s) (r := finished s.nowMs (requestGrowth workload s.radix r).2.1))
  rfl

/-- No operation adds, removes or renames a request. -/
theorem Step.ids (h : Step fl order model input demand plan workload s t) : t.ids = s.ids := by
  cases h with
  | event => rfl
  | release => exact Simulation.ids_map fun r => congrArg (·.requestId) (releaseRequest_demand fl workload _ r)
  | init => exact Simulation.ids_map fun r => congrArg (·.requestId) (initRadix_demand workload r _)
  | admits => exact Simulation.ids_put
  | mark => exact Simulation.ids_put
  | complete => exact ids_completed _
  | prefill => exact Simulation.ids_put
  | decode =>
    refine Simulation.ids_map fun r => ?_
    split_ifs <;> rfl
  | advance => rfl
  | record => rfl

theorem Steps.ids (h : Steps fl order model input demand plan workload s t) : t.ids = s.ids := by
  induction h with
  | refl => rfl
  | tail _ hstep ih => exact hstep.ids.trans ih

end Ids

/-! ## An iteration -/

section Iteration
variable {fl : ℚ → ℚ} {order : Finset String → List String} {model : QueueServiceModel}
  {input : PolicyInput} {demand : ScenarioDemand} {plan : ScenarioPlan}
  {workload : FrozenCounterfactualWorkload}

theorem applyEvents_steps (events : List PhysicalEvent) : ∀ s : Simulation, s.pending = events →
    Yields (applyEvents fl input events s) (Steps fl order model input demand plan workload s) := by
  induction events with
  | nil => exact fun s _ => Yields.ok .refl
  | cons e rest ih =>
    intro s hpending
    rw [applyEvents]
    refine Yields.ite (fun hdue => Yields.bind fun t ht => ?_) fun _ => Yields.ok .refl
    obtain ⟨_,hcheck,ht⟩ := bind_eq_ok.mp ht
    cases ht
    intro u hu
    exact .head (.event hpending hdue hcheck) (ih _ rfl u hu)

theorem initStates_steps (s : Simulation) :
    Yields (initStates workload s) (Steps fl order model input demand plan workload s) := by
  unfold initStates
  cases hradix : s.radix with
  | none => exact Yields.ok .refl
  | some radix =>
    refine Yields.bind fun _ _ => Yields.ok (.single ?_)
    have hinit : Step fl order model input demand plan workload s _ := .init hradix
    rw [hradix] at hinit
    exact hinit

theorem byPriority_perm (l : List RequestState) : (byPriority plan l).Perm l := List.mergeSort_perm _ _

theorem mem_byPriority {l : List RequestState} {r : RequestState} : r ∈ byPriority plan l ↔ r ∈ l :=
  (byPriority_perm l).mem_iff

/-- Operations on one request leave the others as they are. -/
theorem mem_moved_put {s t : Simulation} {q r : RequestState} (hids : s.ids.Nodup) (hr : r ∈ s.states)
    (hput : ∃ p : RequestState, p.id = r.id ∧ t.states = (s.put p).states) (hq : q ∈ s.states) (hne : q ≠ r) :
    q ∈ t.states := by
  obtain ⟨p,hp,heq⟩ := hput
  rw [heq]
  refine Simulation.mem_put_of_ne hq fun hid => hne ?_
  exact Simulation.eq_of_id hids hq hr (hid.trans hp)

theorem admitRequests_steps (s : Simulation) (hids : s.ids.Nodup) :
    Yields (admitRequests order input demand plan s) (Steps fl order model input demand plan workload s) := by
  refine foldlM_keeps (Q := fun t r => r ∈ t.states ∧ r.waiting = true) _ ?_ ?_ s .refl ?_
  · exact (byPriority_perm _).nodup_iff.mpr ((Simulation.nodup_states hids).filter _)
  · intro t r _ hsteps ⟨hr,hwaiting⟩
    refine Yields.bind fun fits hfits => Yields.ite (fun htrue => Yields.ok ?_) fun _ => Yields.ok ?_
    · rw [htrue] at hfits
      refine ⟨.tail hsteps (.admits hr hwaiting hfits),fun q _ hne ⟨hq,hq'⟩ => ⟨?_,hq'⟩⟩
      exact mem_moved_put (hsteps.ids.symm ▸ hids) hr ⟨{ r with admittedAtMs := some t.nowMs },rfl,rfl⟩ hq hne
    · exact ⟨hsteps,fun _ _ _ hq => hq⟩
  · intro r hr
    exact List.mem_filter.mp (mem_byPriority.mp hr)

theorem completed_states (s : Simulation) (r : RequestState) : ∃ p : RequestState, p.id = r.id ∧
    (completed workload s r).states = (s.put p).states :=
  ⟨finished s.nowMs (requestGrowth workload s.radix r).2.1,
    congrArg (·.requestId) (requestGrowth_demand workload r s.radix),rfl⟩

/-- A request that is done and was served completes. -/
theorem completeRequest_steps {s t : Simulation} {r : RequestState}
    (hsteps : Steps fl order model input demand plan workload s t) (hr : r ∈ t.states)
    (hactive : r.active = true) (hdone : r.done = true) (hserved : r.firstServiceMs.isSome) :
    Yields (completeRequest input workload t r) fun u =>
      Steps fl order model input demand plan workload s u ∧ u = t.moved (completed workload t r) := by
  refine Yields.bind fun _ _ => Yields.bind fun _ hcheck => Yields.ok ⟨?_,rfl⟩
  exact .tail hsteps (.complete hr hactive hdone hserved hcheck)

theorem completed_put {s : Simulation} {q r : RequestState} (hid : q.id = r.id) :
    completed workload (s.put q) r = completed workload s r := by
  have hstates := Simulation.put_put (s := s) (q := q)
    (r := finished s.nowMs (requestGrowth workload s.radix r).2.1)
    (hid.trans (congrArg (·.requestId) (requestGrowth_demand workload r s.radix)).symm)
  unfold completed
  have h : (s.put q).nowMs = s.nowMs := rfl
  simp only [Simulation.put,Simulation.mk.injEq,and_true] at hstates ⊢
  exact hstates

theorem completeIdle_steps (s : Simulation) (hids : s.ids.Nodup) :
    Yields (completeIdle input workload s) (Steps fl order model input demand plan workload s) := by
  refine foldlM_keeps (Q := fun t r => r ∈ t.states ∧ r.active = true ∧ r.done = true) _ ?_ ?_ s .refl ?_
  · exact (Simulation.nodup_states hids).filter _
  · intro t r _ hsteps ⟨hr,hactive,hdone⟩ u hu
    have hmarked := hsteps.tail (.mark hr hactive)
    have hput : completeRequest input workload t (markFirstService t.nowMs r) =
        completeRequest input workload (t.put (markFirstService t.nowMs r)) (markFirstService t.nowMs r) := by
      unfold completeRequest
      rw [completed_put rfl]
      rfl
    rw [hput] at hu
    obtain ⟨hu,heq⟩ := completeRequest_steps hmarked (Simulation.mem_put hr rfl) hactive hdone rfl u hu
    refine ⟨hu,fun q _ hne ⟨hq,hq'⟩ => ⟨?_,hq'⟩⟩
    rw [completed_put rfl] at heq
    rw [heq]
    exact mem_moved_put (hsteps.ids.symm ▸ hids) hr (completed_states t (markFirstService t.nowMs r)) hq hne
  · intro r hr
    obtain ⟨hr,hboth⟩ := List.mem_filter.mp hr
    exact ⟨hr,Bool.and_eq_true_iff.mp hboth⟩

theorem mem_prefilling {s : Simulation} {r : RequestState} :
    r ∈ prefilling s ↔ r ∈ s.states ∧ r.active = true ∧ 0 < r.prefillRemaining := by
  simp [prefilling,List.mem_filter]

theorem mem_decoding {s : Simulation} {r : RequestState} : r ∈ decoding s ↔
    r ∈ s.states ∧ r.active = true ∧ r.prefillRemaining = 0 ∧ 0 < r.decodeRemaining := by
  simp [decoding,List.mem_filter,and_assoc]

theorem prefillChunk_active (radix : Option TrieNode) (nowMs : ℚ) (r : RequestState) :
    (prefillChunk model radix nowMs r).2.active = r.active := by
  cases radix <;> rfl

theorem servePrefill_steps {s : Simulation} {r : RequestState} (hr : r ∈ prefilling s) :
    Yields (servePrefill fl model input workload s r)
      (Steps fl order model input demand plan workload s) := by
  obtain ⟨hr,hactive,hremaining⟩ := mem_prefilling.mp hr
  refine Yields.bind fun elapsed helapsed => Yields.ite (fun hdone => ?_) fun _ => ?_
  · have hmem : (prefillChunk model s.radix s.nowMs r).2 ∈ (prefilled fl model s r elapsed).states :=
      Simulation.mem_put hr (congrArg (·.requestId) (prefillChunk_demand model r s.radix s.nowMs)).symm
    have hserved : (prefillChunk model s.radix s.nowMs r).2.firstServiceMs.isSome := by
      cases s.radix <;> rfl
    intro t ht
    exact (completeRequest_steps (.single (.prefill hr hactive hremaining helapsed)) hmem
      ((prefillChunk_active _ _ r).trans hactive) hdone hserved t ht).1
  · exact Yields.ok (.single (.prefill hr hactive hremaining helapsed))

theorem decodable_take (s : Simulation) (n : ℕ) : Decodable s ((byPriority plan (decoding s)).take n) :=
  fun _ hr => mem_decoding.mp (mem_byPriority.mp (List.mem_of_mem_take hr))

theorem serveDecode_steps {s : Simulation} {batch : List RequestState} (hids : s.ids.Nodup)
    (hbatch : Decodable s batch) (hnodup : batch.Nodup) :
    Yields (serveDecode fl model input workload s batch)
      (Steps fl order model input demand plan workload s) := by
  refine Yields.bind fun rate hrate => ?_
  have hdecode : Step fl order model input demand plan workload s (decoded fl model s batch
      (fl (model.decodeLaunchMs + fl (((batch.map (decodeTokens model)).sum : ℕ) / rate)))) :=
    .decode hbatch hrate
  generalize fl (model.decodeLaunchMs + fl (((batch.map (decodeTokens model)).sum : ℕ) / rate)) =
    elapsed at hdecode ⊢
  refine foldlM_keeps (Q := fun t r => r ∈ t.states ∧ r.active = true ∧ r.done = true ∧
    r.firstServiceMs.isSome) _ ?_ ?_ _ (.single hdecode) ?_
  · have hserved : ((batch.map (decodeRequest fl model s.nowMs elapsed)).map (·.id)).Nodup := by
      rw [List.map_map]
      exact hnodup.map_on fun q hq r hr heq => Simulation.eq_of_id hids (hbatch q hq).1 (hbatch r hr).1 heq
    exact hserved.of_map.filter _
  · intro t r _ hsteps ⟨hr,hactive,hdone,hserved⟩ u hu
    obtain ⟨hu,heq⟩ := completeRequest_steps hsteps hr hactive hdone hserved u hu
    refine ⟨hu,fun q _ hne ⟨hq,hq'⟩ => ⟨?_,hq'⟩⟩
    rw [heq]
    exact mem_moved_put (hsteps.ids.symm ▸ hids) hr (completed_states t r) hq hne
  · intro r hr
    obtain ⟨hr,hdone⟩ := List.mem_filter.mp hr
    obtain ⟨q,hq,rfl⟩ := List.mem_map.mp hr
    obtain ⟨hmem,hactive,hprefill,-⟩ := hbatch q hq
    refine ⟨List.mem_map.mpr ⟨q,hmem,if_pos (List.mem_map_of_mem hq)⟩,hactive,?_,rfl⟩
    have hdone : (decodeRequest fl model s.nowMs elapsed q).decodeRemaining = 0 := by simpa using hdone
    have hprefill : (decodeRequest fl model s.nowMs elapsed q).prefillRemaining = 0 := hprefill
    simp [RequestState.done,hdone,hprefill]

theorem advance_steps (s : Simulation) :
    Yields (advance fl workload s) (Steps fl order model input demand plan workload s) := by
  intro t ht
  unfold advance at ht
  cases hmin : (futureTimes fl workload s).min? with
  | none => simp [hmin] at ht
  | some now =>
    simp only [hmin,Except.ok.injEq] at ht
    subst ht
    exact .single (.advance (List.min?_mem hmin))

theorem serve_steps (s : Simulation) (hids : s.ids.Nodup) :
    Yields (serve fl model input plan workload s) (Steps fl order model input demand plan workload s) := by
  have hdecode : Yields (serveDecode fl model input workload s
      ((byPriority plan (decoding s)).take model.maxDecodeBatch))
      (Steps fl order model input demand plan workload s) := by
    refine serveDecode_steps hids (decodable_take s _) ?_
    have hnodup : (byPriority plan (decoding s)).Nodup :=
      (byPriority_perm _).nodup_iff.mpr ((Simulation.nodup_states hids).filter _)
    exact hnodup.sublist (List.take_sublist _ _)
  unfold serve
  cases hhead : (byPriority plan (prefilling s)).head? with
  | none => exact Yields.ite (fun _ => advance_steps s) fun _ => hdecode
  | some r =>
    have hr : r ∈ prefilling s := mem_byPriority.mp (List.mem_of_mem_head? hhead)
    exact Yields.ite (fun _ => servePrefill_steps hr) fun _ => hdecode

theorem settle_steps (s : Simulation) (hids : s.ids.Nodup) :
    Yields (settle fl order input demand plan workload s)
      (Steps fl order model input demand plan workload s) := by
  refine Yields.bind fun t ht => Yields.bind fun u hu => Yields.bind fun v hv => fun w hw => ?_
  have hevents : Steps fl order model input demand plan workload s t :=
    applyEvents_steps s.pending s rfl t ht
  have hinit := (hevents.tail (.release t)).trans (initStates_steps _ u hu)
  have hadmit := hinit.trans (admitRequests_steps u ((Steps.ids hinit).symm ▸ hids) v hv)
  exact hadmit.trans (completeIdle_steps v ((Steps.ids hadmit).symm ▸ hids) w hw)

theorem iterate_steps (s : Simulation) (hids : s.ids.Nodup) :
    Yields (iterate fl order model input demand plan workload s)
      (Steps fl order model input demand plan workload s) := by
  refine Yields.bind fun t ht => Yields.bind fun u hu => Yields.ok ?_
  have hsettle : Steps fl order model input demand plan workload s t := settle_steps s hids t ht
  exact (hsettle.trans (serve_steps t (hsettle.ids.symm ▸ hids) u hu)).tail (.record u)

theorem iterate_recorded (s : Simulation) :
    Yields (iterate fl order model input demand plan workload s) fun t => t.occupied ≤ t.hbmPeak :=
  Yields.bind fun _ _ => Yields.bind fun _ _ => Yields.ok (le_max_right _ _)

/-- What every iteration keeps, the loop does. It ends when nothing is left to do. -/
theorem loop_keeps {I : Simulation → Prop}
    (hstep : ∀ s, I s → Yields (iterate fl order model input demand plan workload s) I) :
    ∀ (fuel : ℕ) (s t : Simulation), I s →
      loop fl order model input demand plan workload fuel s = some (.ok t) → I t ∧ t.running = false := by
  intro fuel
  induction fuel with
  | zero =>
    intro s t hs h
    rw [loop] at h
    by_cases hrunning : s.running = true
    · simp [hrunning] at h
    · rw [if_neg hrunning] at h
      cases h
      exact ⟨hs,by simpa using hrunning⟩
  | succ fuel ih =>
    intro s t hs h
    rw [loop] at h
    by_cases hrunning : s.running = true
    · rw [if_pos hrunning] at h
      cases hiterate : iterate fl order model input demand plan workload s with
      | error e => simp [hiterate] at h
      | ok u =>
        simp only [hiterate] at h
        exact ih u t (hstep s hs u hiterate) h
    · rw [if_neg hrunning] at h
      cases h
      exact ⟨hs,by simpa using hrunning⟩

end Iteration

section Start
variable {workload : FrozenCounterfactualWorkload}

theorem ids_initial (input : ReplayInput) (physical : PhysicalSchedule) :
    (Simulation.initial input workload physical).ids.Nodup := by
  have hids : (Simulation.initial input workload physical).ids = workload.requests.map (·.requestId) := by
    unfold Simulation.initial Simulation.ids
    rw [List.map_map]
    rfl
  rw [hids]
  exact workload.requestIds_nodup

end Start

end BeliefKV.QueueService
