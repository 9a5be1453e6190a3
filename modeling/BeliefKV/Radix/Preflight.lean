import BeliefKV.Radix.Growing

/-! Batches of calls: what they take on the GPU is what was counted before, in any order of the calls. -/
namespace BeliefKV.TieredTokenRadix
open Call Prefixes
variable {s t : TieredTokenRadix} {validated : Bool}

/-! ## The calls of a batch -/

section Batch
variable {B : Type}

/-- The tokens that the calls of a batch take on the GPU. -/
def totalDelta (call : TieredTokenRadix → B → TieredTokenRadix × Except RadixRaised TieredRadixMutation) :
    TieredTokenRadix → List B → TieredTokenRadix × Except RadixRaised ℤ
  | s, [] => (s,.ok 0)
  | s, b :: batch =>
    andThen (call s b) fun s m =>
    andThen (totalDelta call s batch) fun s total => (s,.ok (m.gpuDeltaTokens + total))

variable {call : TieredTokenRadix → B → TieredTokenRadix × Except RadixRaised TieredRadixMutation} {p : B → List ℤ}
  {R : TieredTokenRadix → B → Prop} {apart : B → B → Prop}

/-- A batch takes what is missing of its paths, each prefix once. -/
theorem totalDelta_ok
    (hgrow : ∀ s b, s.Whole → R s b → ∃ t m, call s b = (t,.ok m) ∧ Grown s t m (p b) ∧
      ∀ c, apart b c → R s c → R t c) (batch : List B) :
    ∀ s : TieredTokenRadix, s.Whole → batch.Pairwise apart → (∀ b ∈ batch, R s b) →
      (totalDelta call s batch).2 = .ok ((union (batch.map p) \ s.residents).card : ℤ) := by
  induction batch with
  | nil =>
    intro s _ _ _
    rw [List.map_nil,union_nil,Finset.empty_sdiff]
    rfl
  | cons b batch ih =>
    intro s hs hapart hready
    obtain ⟨hhead,htail⟩ := List.pairwise_cons.mp hapart
    obtain ⟨t,m,hcall,hgrown,hkeep⟩ := hgrow s b hs (hready b List.mem_cons_self)
    have hrest := ih t hgrown.whole htail fun c hc => hkeep c (hhead c hc) (hready c (List.mem_cons_of_mem b hc))
    rw [totalDelta,hcall,andThen_ok,List.map_cons,union_cons]
    generalize totalDelta call t batch = rest at hrest ⊢
    obtain ⟨u,result⟩ := rest
    simp only at hrest
    subst hrest
    rw [andThen_ok,hgrown.delta hs,hgrown.residents hs]
    -- what the rest takes is missing after the first path has been grown
    have hsplit : ((along [] (p b)).toFinset ∪ union (batch.map p)) \ s.residents =
        ((along [] (p b)).toFinset \ s.residents) ∪
          (union (batch.map p) \ (s.residents ∪ (along [] (p b)).toFinset)) := by
      ext q
      simp only [Finset.mem_sdiff,Finset.mem_union]
      tauto
    have hdisjoint : Disjoint ((along [] (p b)).toFinset \ s.residents)
        (union (batch.map p) \ (s.residents ∪ (along [] (p b)).toFinset)) := by
      rw [Finset.disjoint_left]
      intro q hq hq'
      exact (Finset.mem_sdiff.mp hq').2 (Finset.mem_union_right _ (Finset.mem_sdiff.mp hq).1)
    rw [hsplit,Finset.card_union_of_disjoint hdisjoint]
    push_cast
    rfl

/-- A batch raises where its first call does. -/
theorem totalDelta_error {raised : RadixRaised} {G : B → Prop}
    (hgrow : ∀ s b, s.Whole → R s b → G b → ∃ t m, call s b = (t,.ok m) ∧ Grown s t m (p b) ∧
      ∀ c, apart b c → R s c → R t c)
    (hraise : ∀ s b, ¬ G b → (call s b).2 = .error raised) (batch : List B) :
    ∀ s : TieredTokenRadix, s.Whole → batch.Pairwise apart → (∀ b ∈ batch, R s b) → (∃ b ∈ batch, ¬ G b) →
      (totalDelta call s batch).2 = .error raised := by
  induction batch with
  | nil => exact fun _ _ _ _ ⟨b,hb,_⟩ => absurd hb List.not_mem_nil
  | cons b batch ih =>
    intro s hs hapart hready hbad
    obtain ⟨hhead,htail⟩ := List.pairwise_cons.mp hapart
    rw [totalDelta]
    by_cases hsane : G b
    · obtain ⟨t,m,hcall,hgrown,hkeep⟩ := hgrow s b hs (hready b List.mem_cons_self) hsane
      have hlater : ∃ c ∈ batch, ¬ G c := by
        obtain ⟨c,hc,hno⟩ := hbad
        obtain rfl | hc := List.mem_cons.mp hc
        · exact absurd hsane hno
        · exact ⟨c,hc,hno⟩
      have hrest := ih t hgrown.whole htail (fun c hc => hkeep c (hhead c hc) (hready c (List.mem_cons_of_mem b hc)))
        hlater
      rw [hcall,andThen_ok]
      generalize totalDelta call t batch = rest at hrest ⊢
      obtain ⟨u,result⟩ := rest
      simp only at hrest
      subst hrest
      rfl
    · have hfail := hraise s b hsane
      generalize call s b = first at hfail ⊢
      obtain ⟨t,result⟩ := first
      simp only at hfail
      subst hfail
      rfl

end Batch

/-! ## Estimates -/

theorem estimatePath_quietly (path : List ℤ) : ∀ (e : Estimate) (v : ℤ),
    s.quietly.estimatePath e v path = s.estimatePath e v path := by
  induction path with
  | nil => exact fun _ _ => rfl
  | cons x path ih =>
    intro e v
    rw [estimatePath,estimatePath,heap_quietly]
    cases (if v < 0 then none else (s.heap v.toNat).children[x]?) with
    | some c => exact ih _ c
    | none =>
      simp only
      cases e.virtualEdges[(v,x)]? with
      | some w => exact ih e w
      | none => exact ih _ _

theorem residents_quietly (hs : s.Whole) : s.quietly.residents = s.residents := by
  ext q
  rw [hs.sound.linked.mem_residents,hs.linked.mem_residents,(quietly_sameGrowth s).resident]

/-- The estimate foresees a radix in which the requests have grown their paths one after the other. -/
theorem estimateRequests_ok (hs : s.Whole) (requests : List (String × List ℤ)) :
    ∀ {e : Estimate} {u : TieredTokenRadix}, Foresees s.quietly e u → u.Sound → (requests.map Prod.fst).Nodup →
      (∀ r ∈ requests, s.Extends r.1 r.2) → (∀ r ∈ requests, validated = true ∨ validatePath r.2 = .ok r.2) →
      (∀ r ∈ requests, u.Extends r.1 r.2 ∧ u.requestLocks[r.1]? = s.requestLocks[r.1]?) →
      ∃ e' t, s.estimateRequests validated e requests = .ok e' ∧ Foresees s.quietly e' t ∧ t.Sound ∧
        t.residents = u.residents ∪ union (requests.map Prod.snd) := by
  induction requests with
  | nil =>
    intro e u hu hsound _ _ _ _
    refine ⟨e,u,rfl,hu,hsound,?_⟩
    rw [List.map_nil,union_nil,Finset.union_empty]
  | cons request rest ih =>
    intro e u hu hsound hnodup hgoes hsane hready
    rw [List.map_cons] at hnodup
    obtain ⟨hfresh,hnodup⟩ := List.nodup_cons.mp hnodup
    obtain ⟨hhere,hlock⟩ := hready request List.mem_cons_self
    obtain ⟨t,m,hcall,hgrown,hother⟩ := extendRequestGpu_quiet hsound hhere
    have ht : t.Sound := by
      have hfine := (extendRequestGpu_fine hsound request.1 request.2 true).sound
      rwa [hcall] at hfine
    obtain ⟨ids,hids,hpath⟩ := hgoes request List.mem_cons_self
    have hend := hs.linked.endpoint hids hpath
    have hend' := hs.sound.linked.endpoint hids ((existingPath_quietly s 0 _).trans hpath)
    obtain ⟨hforesees,-,hkept⟩ := hu.extend hs.sound hsound hlock hend' hcall
    rw [estimatePath_quietly] at hforesees
    obtain ⟨e',t',hrest,hforesees',ht',hresidents⟩ := ih hforesees ht hnodup
      (fun r hr => hgoes r (List.mem_cons_of_mem request hr)) (fun r hr => hsane r (List.mem_cons_of_mem request hr))
      fun r hr => by
        have hne : r.1 ≠ request.1 := fun heq => hfresh (heq ▸ List.mem_map_of_mem hr)
        obtain ⟨hgo,hsame⟩ := hready r (List.mem_cons_of_mem request hr)
        exact ⟨hother r.1 hne r.2 hgo,(hkept r.1 hne).trans hsame⟩
    have hnormal : (if validated then .ok request.2 else validatePath request.2 : Except RadixRaised (List ℤ)) =
        .ok request.2 := by
      obtain rfl | hvalid := hsane request List.mem_cons_self
      · rfl
      · rw [hvalid,ite_self]
    refine ⟨e',t',?_,hforesees',ht',?_⟩
    · rw [estimateRequests,hnormal]
      simp only
      rw [hend]
      exact hrest
    · rw [hresidents,hgrown.residents hsound.whole,List.map_cons,union_cons,Finset.union_assoc]

theorem gpuExtensionDemand_ok (hs : s.Whole) {requests : List (String × List ℤ)}
    (hnodup : (requests.map Prod.fst).Nodup) (hgoes : ∀ r ∈ requests, s.Extends r.1 r.2)
    (hsane : ∀ r ∈ requests, validated = true ∨ validatePath r.2 = .ok r.2) :
    s.gpuExtensionDemand requests validated = .ok (union (requests.map Prod.snd) \ s.residents).card := by
  obtain ⟨e,t,hestimate,hforesees,ht,hresidents⟩ := estimateRequests_ok hs requests Foresees.start hs.sound hnodup
    hgoes hsane fun r hr => ⟨extends_quietly.mpr (hgoes r hr),rfl⟩
  have htokens := hforesees.tokens
  have hstart : s.quietly.gpuTokens = s.residents.card := hs.gpuTokens
  have hcard := Finset.card_sdiff_add_card (union (requests.map Prod.snd)) s.residents
  rw [residents_quietly hs] at hresidents
  rw [ht.whole.gpuTokens,hstart,hresidents,Finset.union_comm] at htokens
  unfold gpuExtensionDemand
  rw [hestimate]
  change Except.ok e.tokens = _
  congr 1
  omega

theorem gpuExtensionDemand_error (hl : s.Linked) {requests : List (String × List ℤ)}
    (hgoes : ∀ r ∈ requests, s.Extends r.1 r.2)
    (hbad : ∃ r ∈ requests, ¬ (validated = true ∨ validatePath r.2 = .ok r.2)) :
    s.gpuExtensionDemand requests validated =
      .error (.valueError "token symbols must be unsigned 64-bit integers") := by
  have hloop : ∀ e, s.estimateRequests validated e requests =
      .error (.valueError "token symbols must be unsigned 64-bit integers") := by
    induction requests with
    | nil =>
      obtain ⟨r,hr,-⟩ := hbad
      exact absurd hr List.not_mem_nil
    | cons request rest ih =>
      intro e
      obtain ⟨r,hr,hno⟩ := hbad
      have hchecked : validated = false := by simpa using fun h => hno (.inl h)
      rw [estimateRequests,hchecked,if_neg Bool.false_ne_true]
      obtain hpath | hpath := validatePath_cases request.2
      · obtain ⟨ids,hids,hlock⟩ := hgoes request List.mem_cons_self
        rw [hpath]
        simp only
        rw [hl.endpoint hids hlock]
        simp only
        rw [← hchecked]
        refine ih (fun r hr => hgoes r (List.mem_cons_of_mem request hr)) ?_ _
        obtain rfl | hr := List.mem_cons.mp hr
        · exact absurd (.inr hpath) hno
        · exact ⟨r,hr,hno⟩
      · rw [hpath]
  exact congrArg _ (hloop {})

theorem gpuExtensionDemand_perm (hs : s.Whole) {requests requests' : List (String × List ℤ)}
    (hperm : requests.Perm requests') (hnodup : (requests'.map Prod.fst).Nodup)
    (hgoes : ∀ r ∈ requests', s.Extends r.1 r.2) :
    s.gpuExtensionDemand requests validated = s.gpuExtensionDemand requests' validated := by
  have hgoes' (r : String × List ℤ) (hr : r ∈ requests) : s.Extends r.1 r.2 := hgoes r (hperm.mem_iff.mp hr)
  by_cases hsane : ∀ r ∈ requests', validated = true ∨ validatePath r.2 = .ok r.2
  · rw [gpuExtensionDemand_ok hs hnodup hgoes hsane,
      gpuExtensionDemand_ok hs ((hperm.map Prod.fst).nodup_iff.mpr hnodup) hgoes' fun r hr => hsane r (hperm.mem_iff.mp hr),union_perm (hperm.map Prod.snd)]
  · obtain ⟨b,hb,hbad⟩ : ∃ b ∈ requests', ¬ (validated = true ∨ validatePath b.2 = .ok b.2) := by
      by_contra hnone
      exact hsane fun r hr => not_not.mp fun hno => hnone ⟨r,hr,hno⟩
    rw [gpuExtensionDemand_error hs.linked hgoes ⟨b,hb,hbad⟩,
      gpuExtensionDemand_error hs.linked hgoes' ⟨b,hperm.mem_iff.mpr hb,hbad⟩]

/-! ## Before and after -/

/-- What is passed to `materialize_gpu`. -/
structure MaterializeCall where
  path : List ℤ
  contextId : Option String := none
  touch : Bool := true

/-- The materializations of a batch, one after the other. -/
def materializeAll : TieredTokenRadix → List MaterializeCall → TieredTokenRadix × Except RadixRaised ℤ :=
  totalDelta fun s b => s.materializeGpu b.path b.contextId b.touch

/-- The extensions of a batch, one after the other. -/
def extendAll (validated : Bool) :
    TieredTokenRadix → List (String × List ℤ) → TieredTokenRadix × Except RadixRaised ℤ :=
  totalDelta fun s b => s.extendRequestGpu b.1 b.2 validated

theorem materializeAll_eq (hs : s.Whole) {batch : List MaterializeCall} (hid : ∀ b ∈ batch, b.contextId ≠ some "") :
    (s.materializeAll batch).2 =
      (s.gpuMaterializationUnionTokens (batch.map MaterializeCall.path)).map fun n => (n : ℤ) := by
  have hapart : batch.Pairwise fun _ _ => True := List.pairwise_of_forall fun _ _ => trivial
  by_cases hvalid : ∀ b ∈ batch, validatePath b.path = .ok b.path
  · rw [hs.linked.gpuMaterializationUnionTokens_eq fun p hp => by
      obtain ⟨b,hb,rfl⟩ := List.mem_map.mp hp
      exact hvalid b hb]
    refine totalDelta_ok (R := fun _ b => b.contextId ≠ some "" ∧ validatePath b.path = .ok b.path)
      (fun s b hs hready => ?_) batch s hs hapart fun b hb => ⟨hid b hb,hvalid b hb⟩
    obtain ⟨t,m,hcall,hgrown⟩ := materializeGpu_grown hs hready.2 hready.1 b.touch
    exact ⟨t,m,hcall,hgrown,fun _ _ hc => hc⟩
  · obtain ⟨b,hb,hbad⟩ : ∃ b ∈ batch, validatePath b.path ≠ .ok b.path := by simpa using hvalid
    rw [gpuMaterializationUnionTokens_error ⟨b.path,List.mem_map_of_mem hb,hbad⟩]
    refine totalDelta_error (p := MaterializeCall.path) (R := fun _ b => b.contextId ≠ some "")
      (G := fun b => validatePath b.path = .ok b.path)
      (fun s b hs hready hsane => ?_) (fun s b hno => ?_) batch s hs hapart hid ⟨b,hb,hbad⟩
    · obtain ⟨t,m,hcall,hgrown⟩ := materializeGpu_grown hs hsane hready b.touch
      exact ⟨t,m,hcall,hgrown,fun _ _ hc => hc⟩
    · have hraise := (validatePath_cases b.path).resolve_left hno
      unfold materializeGpu
      rw [hraise,andThen_error]

theorem extendAll_eq (hs : s.Whole) {batch : List (String × List ℤ)} (hnodup : (batch.map Prod.fst).Nodup)
    (hgoes : ∀ r ∈ batch, s.Extends r.1 r.2) :
    (s.extendAll validated batch).2 = (s.gpuExtensionDemand batch validated).map fun n => (n : ℤ) := by
  have hapart : batch.Pairwise fun a b => b.1 ≠ a.1 :=
    (List.pairwise_map.mp hnodup).imp fun h heq => h heq.symm
  by_cases hsane : ∀ r ∈ batch, validated = true ∨ validatePath r.2 = .ok r.2
  · rw [gpuExtensionDemand_ok hs hnodup hgoes hsane]
    refine totalDelta_ok (R := fun s b => s.Extends b.1 b.2 ∧ (validated = true ∨ validatePath b.2 = .ok b.2))
      (fun s b hs hready => ?_) batch s hs hapart fun b hb => ⟨hgoes b hb,hsane b hb⟩
    obtain ⟨t,m,hcall,hgrown,hother⟩ := extendRequestGpu_grown hs hready.1 hready.2
    exact ⟨t,m,hcall,hgrown,fun c hne hc => ⟨hother c.1 hne c.2 hc.1,hc.2⟩⟩
  · obtain ⟨b,hb,hbad⟩ : ∃ b ∈ batch, ¬ (validated = true ∨ validatePath b.2 = .ok b.2) := by
      by_contra hnone
      exact hsane fun r hr => not_not.mp fun hno => hnone ⟨r,hr,hno⟩
    rw [gpuExtensionDemand_error hs.linked hgoes ⟨b,hb,hbad⟩]
    refine totalDelta_error (p := Prod.snd) (R := fun s b => s.Extends b.1 b.2)
      (G := fun b => validated = true ∨ validatePath b.2 = .ok b.2)
      (fun s b hs hready hsane => ?_) (fun s b hno => ?_) batch s hs hapart hgoes ⟨b,hb,hbad⟩
    · obtain ⟨t,m,hcall,hgrown,hother⟩ := extendRequestGpu_grown hs hready hsane
      exact ⟨t,m,hcall,hgrown,fun c hne hc => hother c.1 hne c.2 hc⟩
    · obtain ⟨hchecked,hpath⟩ := not_or.mp hno
      unfold extendRequestGpu
      rw [if_neg hchecked,(validatePath_cases b.2).resolve_left hpath,andThen_error]

/-- Of every radix that can be had: each counter says what the calls will take on the GPU, in whatever order they
are made. -/
theorem demand_exact (h : Reached (fun _ => True) s) :
    (∀ (path : List ℤ) (contextId : Option String) (touch : Bool), contextId ≠ some "" →
      (s.materializeGpu path contextId touch).2.map TieredRadixMutation.gpuDeltaTokens =
        (s.gpuMaterializationTokens path).map fun n => (n : ℤ)) ∧
    (∀ (paths : List (List ℤ)) (batch : List MaterializeCall), (batch.map MaterializeCall.path).Perm paths →
      (∀ b ∈ batch, b.contextId ≠ some "") →
        (s.materializeAll batch).2 = (s.gpuMaterializationUnionTokens paths).map fun n => (n : ℤ)) ∧
    (∀ (requestPaths batch : List (String × List ℤ)) (validated : Bool), (requestPaths.map Prod.fst).Nodup →
      (∀ r ∈ requestPaths, s.Extends r.1 r.2) → batch.Perm requestPaths →
        (s.extendAll validated batch).2 = (s.gpuExtensionDemand requestPaths validated).map fun n => (n : ℤ)) := by
  have hs := h.whole
  refine ⟨fun path contextId touch hid => ?_,fun paths batch hperm hid => ?_,
    fun requestPaths batch validated hnodup hgoes hperm => ?_⟩
  · unfold gpuMaterializationTokens
    obtain hpath | hpath := validatePath_cases path
    · obtain ⟨t,m,hcall,hgrown⟩ := materializeGpu_grown hs hpath hid touch
      have hstart : s.Leads 0 [] 0 := rfl
      rw [hcall,hpath]
      change Except.ok m.gpuDeltaTokens = .ok ((s.missingGpu 0 path : ℕ) : ℤ)
      rw [hgrown.delta hs,hs.linked.missingGpu_eq path hstart]
    · unfold materializeGpu
      rw [hpath,andThen_error]
      rfl
  · rw [materializeAll_eq hs hid,hs.linked.gpuMaterializationUnionTokens_perm hperm]
  · have hgoes' (r : String × List ℤ) (hr : r ∈ batch) : s.Extends r.1 r.2 := hgoes r (hperm.mem_iff.mp hr)
    have hnodup' := (hperm.map Prod.fst).nodup_iff.mpr hnodup
    rw [extendAll_eq hs hnodup' hgoes',gpuExtensionDemand_perm hs hperm hnodup hgoes]

/-- A radix with the self-check, in which two prompts share a prefix and one of them is locked. -/
def lockedPrompts : TieredTokenRadix := { validateEachMutation := true : TieredTokenRadix }.run (twoPrompts ++
  [.lockPrefix "q" [1,2] 2])

theorem demand_exact_sample :
    (lockedPrompts.extendAll false [("q",[1,2,4,6]),("r",[1,2,3,5,7])]).2 = .ok 3 := by
  have hreached : Reached (fun _ => True) lockedPrompts := Reached.run _ (.new true) fun _ _ => trivial
  have htotal := (demand_exact hreached).2.2 [("r",[1,2,3,5,7]),("q",[1,2,4,6])]
    [("q",[1,2,4,6]),("r",[1,2,3,5,7])] false (by decide) (by
      intro r hr
      simp only [List.mem_cons,List.not_mem_nil,or_false] at hr
      obtain rfl | rfl := hr
      · exact ⟨[1,2,3,5],by decide +kernel,by decide +kernel⟩
      · exact ⟨[1,2],by decide +kernel,by decide +kernel⟩) (by decide)
  have hdemand : lockedPrompts.gpuExtensionDemand [("r",[1,2,3,5,7]),("q",[1,2,4,6])] false = .ok 3 := by
    decide +kernel
  rw [htotal,hdemand]
  rfl

end BeliefKV.TieredTokenRadix
