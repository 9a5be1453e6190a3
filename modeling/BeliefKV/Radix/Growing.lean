import BeliefKV.Radix.Residents
import BeliefKV.Radix.Keeping

/-! What paths need of the GPU, as it is counted before they are grown, and what the calls that grow them add. -/
namespace BeliefKV.TieredTokenRadix
open Call Prefixes
variable {s t u : TieredTokenRadix} {i : ℕ} {p q stem path : List ℤ} {requestId : String} {validated : Bool}

/-! ## Counters -/

/-- One path of `gpu_materialization_union_tokens`: the prefixes that are missing are added. -/
def missingPrefixes (s : TieredTokenRadix) :
    Finset (List ℤ) → ℕ → List ℤ → Bool → List ℤ → Finset (List ℤ)
  | missing, _, _, _, [] => missing
  | missing, node, stem, absent, x :: path =>
    match if absent then none else (s.heap node).children[x]? with
    | none => missingPrefixes s (insert (stem ++ [x]) missing) node (stem ++ [x]) true path
    | some child =>
      missingPrefixes s (if (s.heap child).gpu then missing else insert (stem ++ [x]) missing) child (stem ++ [x])
        absent path

def gpuMaterializationUnionTokens (s : TieredTokenRadix) (paths : List (List ℤ)) : Except RadixRaised ℕ :=
  (paths.foldlM (fun missing rawPath =>
    (validatePath rawPath).map (s.missingPrefixes missing 0 [] false)) ∅).map Finset.card

/-- The loop of `gpu_extension_union_tokens`, whether the paths were validated before or not. -/
def estimateRequests (s : TieredTokenRadix) (validated : Bool) :
    Estimate → List (String × List ℤ) → Except RadixRaised Estimate
  | e, [] => .ok e
  | e, request :: rest =>
    match (if validated then .ok request.2 else validatePath request.2 : Except RadixRaised (List ℤ)) with
    | .error raised => .error raised
    | .ok path =>
      match s.lockedPrefixEndpoint request.1 path with
      | .error raised => .error raised
      | .ok endpoint => estimateRequests s validated (s.estimatePath e endpoint.1 (path.drop endpoint.2)) rest

def gpuExtensionDemand (s : TieredTokenRadix) (requestPaths : List (String × List ℤ)) (validated : Bool) :
    Except RadixRaised ℕ :=
  (s.estimateRequests validated {} requestPaths).map Estimate.tokens

/-! ## What the counters count -/

theorem Linked.resident_child (h : s.Linked) (hstem : s.Leads 0 stem i) {x : ℤ} {c : ℕ} (hc : s.Child i x c) :
    stem ++ [x] ∈ s.residents ↔ (s.heap c).gpu = true := by
  rw [h.mem_residents]
  constructor
  · rintro ⟨-,j,hj,hgpu⟩
    have hsame : j = c := hj.end_unique (leads_concat.mpr ⟨i,hstem,hc⟩)
    exact hsame ▸ hgpu
  · exact fun hgpu => ⟨by simp,c,leads_concat.mpr ⟨i,hstem,hc⟩,hgpu⟩

/-- Where the tree ends, nothing further is on the GPU. -/
theorem Linked.absent_below (h : s.Linked) (hstem : s.Leads 0 stem i) {x : ℤ} (hx : (s.heap i).children[x]? = none)
    (rest : List ℤ) : stem ++ x :: rest ∉ s.residents := by
  intro hmem
  obtain ⟨-,j,hj,-⟩ := h.mem_residents.mp hmem
  obtain ⟨k,hk,c,hc,-⟩ := leads_append.mp hj
  have hsame : k = i := hk.end_unique hstem
  subst hsame
  unfold Child at hc
  rw [hx] at hc
  cases hc

theorem Linked.absent_along (h : s.Linked) (hstem : s.Leads 0 stem i) {x : ℤ} (hx : (s.heap i).children[x]? = none) :
    (along stem (x :: path)).toFinset \ s.residents = (along stem (x :: path)).toFinset := by
  apply Finset.sdiff_eq_self_of_disjoint
  rw [Finset.disjoint_left]
  intro q hq
  obtain ⟨p,hne,hp,rfl⟩ := mem_along.mp (List.mem_toFinset.mp hq)
  obtain ⟨y,p,rfl⟩ := List.exists_cons_of_ne_nil hne
  obtain ⟨rfl,-⟩ := List.cons_prefix_cons.mp hp
  exact h.absent_below hstem hx p

theorem Linked.missingGpu_eq (h : s.Linked) (path : List ℤ) : ∀ {i : ℕ} {stem : List ℤ}, s.Leads 0 stem i →
    s.missingGpu i path = ((along stem path).toFinset \ s.residents).card := by
  induction path with
  | nil =>
    intro i stem _
    rw [along,List.toFinset_nil,Finset.empty_sdiff]
    rfl
  | cons x path ih =>
    intro i stem hstem
    rw [missingGpu]
    cases hc : (s.heap i).children[x]? with
    | none =>
      rw [h.absent_along hstem hc,List.toFinset_card_of_nodup (nodup_along _),length_along,List.length_cons]
    | some c =>
      simp only
      rw [ih (leads_concat.mpr ⟨i,hstem,hc⟩),along,List.toFinset_cons]
      have hfresh : stem ++ [x] ∉ (along (stem ++ [x]) path).toFinset := by
        intro hmem
        exact lt_irrefl _ (lt_length_of_mem (List.mem_toFinset.mp hmem))
      by_cases hgpu : (s.heap c).gpu = true
      · rw [if_pos hgpu,Finset.insert_sdiff_of_mem _ ((h.resident_child hstem hc).mpr hgpu),Nat.zero_add]
      · rw [if_neg hgpu,Finset.insert_sdiff_of_notMem _ (mt (h.resident_child hstem hc).mp hgpu),
          Finset.card_insert_of_notMem fun hmem => hfresh (Finset.mem_sdiff.mp hmem).1]
        omega

theorem missingPrefixes_absent (path : List ℤ) : ∀ (missing : Finset (List ℤ)) (i : ℕ) (stem : List ℤ),
    s.missingPrefixes missing i stem true path = missing ∪ (along stem path).toFinset := by
  induction path with
  | nil => exact fun missing _ _ => (Finset.union_empty missing).symm
  | cons x path ih =>
    intro missing i stem
    rw [missingPrefixes,if_pos rfl]
    simp only
    rw [ih,along,List.toFinset_cons,Finset.insert_union,Finset.union_insert]

theorem Linked.missingPrefixes_eq (h : s.Linked) (path : List ℤ) :
    ∀ (missing : Finset (List ℤ)) {i : ℕ} {stem : List ℤ}, s.Leads 0 stem i →
      s.missingPrefixes missing i stem false path = missing ∪ ((along stem path).toFinset \ s.residents) := by
  induction path with
  | nil =>
    intro missing i stem _
    rw [along,List.toFinset_nil,Finset.empty_sdiff,Finset.union_empty]
    rfl
  | cons x path ih =>
    intro missing i stem hstem
    rw [missingPrefixes,if_neg Bool.false_ne_true]
    cases hc : (s.heap i).children[x]? with
    | none =>
      simp only
      rw [missingPrefixes_absent,h.absent_along hstem hc,along,List.toFinset_cons,
        Finset.insert_union,Finset.union_insert]
    | some c =>
      simp only
      rw [ih _ (leads_concat.mpr ⟨i,hstem,hc⟩),along,List.toFinset_cons]
      by_cases hgpu : (s.heap c).gpu = true
      · rw [if_pos hgpu,Finset.insert_sdiff_of_mem _ ((h.resident_child hstem hc).mpr hgpu)]
      · rw [if_neg hgpu,Finset.insert_sdiff_of_notMem _ (mt (h.resident_child hstem hc).mp hgpu),Finset.insert_union,
          Finset.union_insert]

theorem validatePath_cases (path : List ℤ) : validatePath path = .ok path ∨
    validatePath path = .error (.valueError "token symbols must be unsigned 64-bit integers") := by
  unfold validatePath
  split_ifs
  · exact .inr rfl
  · exact .inl rfl

/-- The union counter finds what is missing of all the paths, when they are paths of symbols. -/
theorem Linked.gpuMaterializationUnionTokens_eq (h : s.Linked) {paths : List (List ℤ)}
    (hpaths : ∀ path ∈ paths, validatePath path = .ok path) :
    s.gpuMaterializationUnionTokens paths = .ok (union paths \ s.residents).card := by
  have hloop : ∀ missing : Finset (List ℤ), paths.foldlM (fun missing rawPath =>
      (validatePath rawPath).map (s.missingPrefixes missing 0 [] false)) missing =
        .ok (missing ∪ (union paths \ s.residents)) := by
    induction paths with
    | nil =>
      intro missing
      rw [union_nil,Finset.empty_sdiff,Finset.union_empty]
      rfl
    | cons path paths ih =>
      intro missing
      rw [List.foldlM_cons,hpaths path List.mem_cons_self]
      change List.foldlM _ (s.missingPrefixes missing 0 [] false path) paths = _
      have hstart : s.Leads 0 [] 0 := rfl
      rw [ih (fun q hq => hpaths q (List.mem_cons_of_mem path hq)),h.missingPrefixes_eq path missing hstart,union_cons,
        Finset.union_sdiff_distrib,Finset.union_assoc]
  unfold gpuMaterializationUnionTokens
  rw [hloop,Finset.empty_union]
  rfl

theorem gpuMaterializationUnionTokens_error {paths : List (List ℤ)}
    (hbad : ∃ path ∈ paths, validatePath path ≠ .ok path) :
    s.gpuMaterializationUnionTokens paths = .error (.valueError "token symbols must be unsigned 64-bit integers") := by
  have hloop : ∀ missing : Finset (List ℤ), paths.foldlM (fun missing rawPath =>
      (validatePath rawPath).map (s.missingPrefixes missing 0 [] false)) missing =
        .error (.valueError "token symbols must be unsigned 64-bit integers") := by
    induction paths with
    | nil =>
      obtain ⟨path,hmem,-⟩ := hbad
      exact absurd hmem List.not_mem_nil
    | cons path paths ih =>
      intro missing
      rw [List.foldlM_cons]
      obtain hpath | hpath := validatePath_cases path
      · rw [hpath]
        refine ih ?_ _
        obtain ⟨q,hq,hne⟩ := hbad
        obtain rfl | hq := List.mem_cons.mp hq
        · exact absurd hpath hne
        · exact ⟨q,hq,hne⟩
      · rw [hpath]
        rfl
  unfold gpuMaterializationUnionTokens
  rw [hloop]
  rfl

theorem Linked.gpuMaterializationUnionTokens_perm (h : s.Linked) {paths paths' : List (List ℤ)}
    (hperm : paths.Perm paths') :
    s.gpuMaterializationUnionTokens paths = s.gpuMaterializationUnionTokens paths' := by
  by_cases hpaths : ∀ path ∈ paths', validatePath path = .ok path
  · rw [h.gpuMaterializationUnionTokens_eq hpaths,
      h.gpuMaterializationUnionTokens_eq fun path hp => hpaths path (hperm.mem_iff.mp hp),union_perm hperm]
  · obtain ⟨path,hp,hbad⟩ : ∃ path ∈ paths', validatePath path ≠ .ok path := by simpa using hpaths
    rw [gpuMaterializationUnionTokens_error ⟨path,hp,hbad⟩,
      gpuMaterializationUnionTokens_error ⟨path,hperm.mem_iff.mpr hp,hbad⟩]

/-! ## What the calls add -/

/-- A call has grown a path on the GPU. -/
structure Grown (s t : TieredTokenRadix) (m : TieredRadixMutation) (path : List ℤ) : Prop where
  whole : t.Whole
  tokens : t.gpuTokens = s.gpuTokens + m.gpuDeltaTokens
  resident : ∀ q, t.Resident q ↔ s.Resident q ∨ q ∈ along [] path

theorem Grown.residents {m : TieredRadixMutation} (h : Grown s t m path) (hs : s.Whole) :
    t.residents = s.residents ∪ (along [] path).toFinset := by
  ext q
  rw [Finset.mem_union,List.mem_toFinset,h.whole.linked.mem_residents,hs.linked.mem_residents,h.resident,and_or_left]
  exact or_congr_right (and_iff_right_of_imp ne_nil_of_mem)

/-- The tokens that a call takes are the prefixes that were missing. -/
theorem Grown.delta {m : TieredRadixMutation} (h : Grown s t m path) (hs : s.Whole) :
    m.gpuDeltaTokens = ((along [] path).toFinset \ s.residents).card := by
  have htokens := h.tokens
  have hcard := Finset.card_sdiff_add_card (along [] path).toFinset s.residents
  rw [hs.gpuTokens,h.whole.gpuTokens,h.residents hs,Finset.union_comm] at htokens
  omega

theorem quietly_sameGrowth (s : TieredTokenRadix) : SameGrowth s s.quietly :=
  ⟨rfl,fun _ => rfl,fun _ => rfl,fun _ => rfl,rfl,rfl⟩

theorem Grown.of_quietly {m : TieredRadixMutation} (h : Grown s.quietly t.quietly m path) : Grown s t m path := by
  refine ⟨⟨h.whole.sound⟩,h.tokens,fun q => ?_⟩
  have hresident := h.resident q
  rwa [(quietly_sameGrowth s).resident,(quietly_sameGrowth t).resident] at hresident

theorem of_hush {A : Type} {call : TieredTokenRadix × Except RadixRaised A} {u : TieredTokenRadix} {a : A}
    (h : hush call = (u,.ok a)) : ∃ t, call = (t,.ok a) ∧ t.quietly = u := by
  obtain ⟨t,result⟩ := call
  obtain ⟨ht,hresult⟩ := Prod.mk.inj h
  exact ⟨t,Prod.ext rfl hresult,ht⟩

theorem Sound.whole (h : s.Sound) : s.Whole := by
  have hquiet : s.quietly = s := by
    unfold quietly
    rw [← h.quiet]
  exact ⟨hquiet.symm ▸ h⟩

/-- A call that has grown a path ends with writes that are none of its concern. -/
theorem Grown.last {m : TieredRadixMutation} (ht : t.Sound) (hcore : SameCore t u)
    (htokens : t.gpuTokens = s.gpuTokens + m.gpuDeltaTokens)
    (hresident : ∀ q, t.Resident q ↔ s.Resident q ∨ q ∈ along [] path) :
    u.checked m = (u,.ok m) ∧ Grown s u m path := by
  have hsound := hcore.sound ht
  have hsame := hcore.sameGrowth
  exact ⟨checked_quiet hsound.quiet m,hsound.whole,hsame.tokens.trans htokens,
    fun q => hsame.resident.trans (hresident q)⟩

theorem materializeGpu_quiet (hs : s.Sound) (hpath : validatePath path = .ok path) {contextId : Option String}
    (hid : contextId ≠ some "") (touch : Bool) :
    ∃ t m, s.materializeGpu path contextId touch = (t,.ok m) ∧ Grown s t m path := by
  obtain ⟨t,growth,hgrow,ht⟩ := growPath_ok none "GPU materialization requires a GPU-resident ancestor" {} path hs
    hs.linked.root hs.tiered.root nofun
  have hstart : s.Leads 0 [] 0 := rfl
  have hresident := growPath_resident path hs.linked hstart hgrow
  have htokens := (growPath_tokens none _ path hgrow).1
  have hlast (u : TieredTokenRadix) (hcore : SameCore t u) (m : TieredRadixMutation)
      (hdelta : m.gpuDeltaTokens = growth.gpuDelta) :
      ∃ u' m', (if touch then u.touchNodes growth.visited else u).checked m = (u',.ok m') ∧ Grown s u' m' path := by
    have hcore' : SameCore t (if touch then u.touchNodes growth.visited else u) := by
      split_ifs
      · exact hcore.trans (SameCore.touchNodes u growth.visited)
      · exact hcore
    exact ⟨_,m,Grown.last ht hcore' (by rw [hdelta]; exact (Int.add_zero _).symm.trans htokens) hresident⟩
  unfold materializeGpu
  rw [hpath,andThen_ok,hgrow,andThen_ok]
  cases contextId with
  | none => exact hlast t ⟨⟨rfl,rfl,fun _ => rfl⟩,rfl,fun _ => rfl,fun _ => rfl,fun _ => rfl,rfl,rfl⟩ _ rfl
  | some contextId =>
    obtain ⟨u,hbind,hcore⟩ := bindContext_ok (s := t) (fun h => hid (congrArg some h)) hpath
    simp only
    rw [hbind,andThen_ok]
    exact hlast u hcore _ rfl

/-- A path of symbols is grown from the root. -/
theorem materializeGpu_grown (hs : s.Whole) (hpath : validatePath path = .ok path) {contextId : Option String}
    (hid : contextId ≠ some "") (touch : Bool) :
    ∃ t m, s.materializeGpu path contextId touch = (t,.ok m) ∧ Grown s t m path := by
  obtain ⟨u,m,hcall,hgrown⟩ := materializeGpu_quiet hs.sound hpath hid touch
  have hhush := hush_materializeGpu (materializeGpu_fine hs.sound path touch hid).sound
  rw [hcall] at hhush
  obtain ⟨t,ht,rfl⟩ := of_hush hhush
  exact ⟨t,m,ht,hgrown.of_quietly⟩

/-! ## Extensions -/

/-- The path of a request goes on from its lock. -/
def Extends (s : TieredTokenRadix) (requestId : String) (path : List ℤ) : Prop :=
  ∃ ids, s.requestLocks[requestId]? = some ids ∧ s.existingPath 0 (path.take ids.length) = ids

theorem existingPath_length_le (path : List ℤ) : ∀ i, (s.existingPath i path).length ≤ path.length := by
  induction path with
  | nil => exact fun _ => le_rfl
  | cons x path ih =>
    intro i
    rw [existingPath]
    cases (s.heap i).children[x]? with
    | none => exact Nat.zero_le _
    | some c => exact Nat.succ_le_succ (ih c)

theorem lock_length {ids : List ℕ} (hpath : s.existingPath 0 (path.take ids.length) = ids) :
    (path.take ids.length).length = ids.length := by
  have hle := existingPath_length_le (s := s) (path.take ids.length) 0
  rw [hpath] at hle
  exact le_antisymm (List.length_take_le _ _) hle

/-- Such a path passes the checks on the lock. -/
theorem Linked.endpoint (h : s.Linked) {ids : List ℕ} (hids : s.requestLocks[requestId]? = some ids)
    (hpath : s.existingPath 0 (path.take ids.length) = ids) :
    s.lockedPrefixEndpoint requestId path = .ok (endOf 0 ids,ids.length) := by
  have hlength := lock_length hpath
  have hshort : ¬ path.length < ids.length := by
    rw [List.length_take] at hlength
    omega
  have htrail := existingPath_trail (s := s) 0 (path.take ids.length)
  rw [hpath] at htrail
  unfold lockedPrefixEndpoint
  rw [hids]
  simp only
  rw [if_neg hshort]
  cases hlast : ids.getLast? with
  | none =>
    obtain rfl := List.getLast?_eq_none_iff.mp hlast
    rfl
  | some last =>
    have hmem := (h.trail_mem h.root htrail last (List.mem_of_getLast? hlast)).1
    have hsymbols := congrArg (fun l => l[ids.length - 1]?) (h.symbols h.root hpath hlength)
    have hsome : 0 < ids.length := List.length_pos_of_mem (List.mem_of_getLast? hlast)
    rw [List.getLast?_eq_getElem?] at hlast
    simp only [List.getElem?_map,hlast,Option.map_some,List.getElem?_take,Nat.sub_lt hsome Nat.one_pos,
      if_true] at hsymbols
    have hsymbol : (s.heap last).symbol = path[ids.length - 1]? := by
      cases hx : path[ids.length - 1]? with
      | none =>
        rw [hx] at hsymbols
        cases hsymbols
      | some x =>
        rw [hx] at hsymbols
        exact Option.some.inj hsymbols
    simp only
    rw [if_neg (not_not.mpr hmem),if_neg (not_not.mpr hsymbol),if_neg fun hbad => hbad.2 hpath]
    unfold endOf
    rw [List.getLast?_eq_getElem?,hlast]
    rfl

theorem Linked.leads_gpu (hl : s.Linked) (ht : s.Tiered ∅) {j : ℕ} (hgpu : (s.heap j).gpu = true) (p : List ℤ) :
    ∀ {i : ℕ}, i ∈ s.nodesById → s.Leads i p j → (s.heap i).gpu = true := by
  induction p with
  | nil =>
    rintro i - rfl
    exact hgpu
  | cons x p ih =>
    rintro i hi ⟨c,hc,hrest⟩
    exact ht.closed i hi x c hc (ih (hl.child i hi x c hc).1 hrest)

/-- What the GPU has is closed under prefixes. -/
theorem Linked.resident_prefix (hl : s.Linked) (ht : s.Tiered ∅) (hq : q <+: p) (hp : s.Resident p) :
    s.Resident q := by
  obtain ⟨rest,rfl⟩ := hq
  obtain ⟨j,hj,hgpu⟩ := hp
  obtain ⟨i,hi,hrest⟩ := leads_append.mp hj
  exact ⟨i,hi,hl.leads_gpu ht hgpu rest (hl.leads_mem hl.root hi).1 hrest⟩

/-- A request that locks another path is none of the call's concern. -/
theorem extendRequestGpu_quiet (hs : s.Sound) (hpath : s.Extends requestId path) :
    ∃ t m, s.extendRequestGpu requestId path true = (t,.ok m) ∧ Grown s t m path ∧
      ∀ r ≠ requestId, ∀ p, s.Extends r p → t.Extends r p := by
  obtain ⟨ids,hids,hlock⟩ := hpath
  have hend := hs.linked.endpoint hids hlock
  have htrail := existingPath_trail (s := s) 0 (path.take ids.length)
  rw [hlock] at htrail
  have hstem : s.Leads 0 (path.take ids.length) (endOf 0 ids) := by
    have hleads := leads_existingPath (s := s) (p := path.take ids.length) (i := 0) (by rw [hlock,lock_length hlock])
    rwa [hlock] at hleads
  have hgpu : (s.heap (endOf 0 ids)).gpu = true := by
    unfold endOf
    cases hlast : ids.getLast? with
    | none => exact hs.tiered.root
    | some last => exact (hs.locked_gpu hids last (List.mem_of_getLast? hlast)).2
  obtain ⟨t,growth,hgrow,ht⟩ := growPath_ok (some requestId) "GPU extension requires a GPU-resident ancestor" {}
    (path.drop ids.length) hs (hs.linked.endOf_mem hs.linked.root htrail) hgpu fun r hr => by
      cases hr
      exact ⟨ids,hids,rfl⟩
  have htokens := (growPath_tokens (some requestId) _ _ hgrow).1
  have hresident (q : List ℤ) : t.Resident q ↔ s.Resident q ∨ q ∈ along [] path := by
    have hlocked : q ∈ along [] (path.take ids.length) → s.Resident q := by
      intro hq
      obtain ⟨p,-,hp,rfl⟩ := mem_along.mp hq
      exact hs.linked.resident_prefix hs.tiered hp ⟨_,hstem,hgpu⟩
    have hsplit := along_append [] (path.take ids.length) (path.drop ids.length)
    rw [List.take_append_drop] at hsplit
    rw [growPath_resident _ hs.linked hstem hgrow q,hsplit,List.mem_append]
    exact ⟨Or.imp_right .inr,fun h => h.elim .inl fun h => h.elim (.inl ∘ hlocked) .inr⟩
  have htouch := SameCore.touchNodes t growth.visited
  obtain ⟨m,hcall,hgrown⟩ : ∃ m, s.extendRequestGpu requestId path true = (t.touchNodes growth.visited,.ok m) ∧
      Grown s (t.touchNodes growth.visited) m path := by
    unfold extendRequestGpu
    rw [if_pos rfl,andThen_ok,hend,andThen_ok]
    simp only
    rw [hgrow,andThen_ok]
    exact ⟨_,Grown.last ht htouch ((Int.add_zero _).symm.trans htokens) hresident⟩
  refine ⟨_,m,hcall,hgrown,fun r hr p hp => ?_⟩
  obtain ⟨other,hother,hlocked⟩ := hp
  have hkept : Kept none s (t.touchNodes growth.visited) := extendRequestGpu_kept hs hcall
  have hsame := (Foresees.start.extend hs hs rfl hend hcall).2.2 r hr
  exact ⟨other,hsame.trans hother,((hkept r nofun).path hs (htouch.sound ht) hother hlocked (lock_length hlocked)).1⟩

theorem extends_quietly : s.quietly.Extends requestId path ↔ s.Extends requestId path := by
  unfold Extends
  simp only [existingPath_quietly]
  exact Iff.rfl

/-- A path is grown from the end of its request's lock. -/
theorem extendRequestGpu_grown (hs : s.Whole) (hpath : s.Extends requestId path)
    (hvalid : validated = true ∨ validatePath path = .ok path) :
    ∃ t m, s.extendRequestGpu requestId path validated = (t,.ok m) ∧ Grown s t m path ∧
      ∀ r ≠ requestId, ∀ p, s.Extends r p → t.Extends r p := by
  obtain ⟨u,m,hcall,hgrown,hother⟩ := extendRequestGpu_quiet hs.sound (extends_quietly.mpr hpath)
  have hsame : s.quietly.extendRequestGpu requestId path validated =
      s.quietly.extendRequestGpu requestId path true := by
    unfold extendRequestGpu
    obtain rfl | hvalid := hvalid
    · rfl
    · rw [hvalid]
      simp only [ite_self]
  obtain ⟨ids,hids,hlock⟩ := hpath
  have hend : s.lockedPrefixEndpoint requestId path = s.quietly.lockedPrefixEndpoint requestId path := by
    rw [hs.linked.endpoint hids hlock]
    exact (hs.sound.linked.endpoint hids ((existingPath_quietly s 0 _).trans hlock)).symm
  have hhush := hush_extendRequestGpu hend (extendRequestGpu_fine hs.sound requestId path validated).sound
  rw [hsame,hcall] at hhush
  obtain ⟨t,ht,rfl⟩ := of_hush hhush
  exact ⟨t,m,ht,hgrown.of_quietly,fun r hr p hp => extends_quietly.mp (hother r hr p (extends_quietly.mpr hp))⟩

end BeliefKV.TieredTokenRadix
