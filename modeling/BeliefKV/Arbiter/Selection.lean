import BeliefKV.PageIndex.Migratable
import BeliefKV.Arbiter.Basic

/-! What the closure checks and the selection loops of the arbiter establish. -/
namespace BeliefKV
open Relation

/-! ## Chains of selections -/

/-- Every element of a list meets a condition on the set of those before it. -/
def Chained {α : Type} [DecidableEq α] (P : Finset α → α → Prop) : Finset α → List α → Prop
  | _, [] => True
  | acc, a :: as => P acc a ∧ Chained P (insert a acc) as

theorem Chained.imp {α : Type} [DecidableEq α] {P Q : Finset α → α → Prop} {acc acc' : Finset α}
    {as : List α} (hacc : acc ⊆ acc') (h : ∀ s t a, s ⊆ t → P s a → Q t a)
    (hc : Chained P acc as) : Chained Q acc' as := by
  induction as generalizing acc acc' with
  | nil => trivial
  | cons a as ih => exact ⟨h _ _ _ hacc hc.1,ih (Finset.insert_subset_insert a hacc) hc.2⟩

namespace Selection
variable (allows : PhysicalPageRecord → Finset PageHandle → Bool) (limit : ℕ)

/-- The actions a selection loop adds come from its candidates, in their order, and each of them
was allowed by what was selected before it. -/
theorem run_spec {P : Finset PageHandle → PageHandle → Prop} (candidates : List Candidate)
    (hP : ∀ c ∈ candidates, ∀ selected, allows c.1 selected → P selected c.1.handle)
    (acc : Selection) :
    ∃ taken, List.Sublist taken candidates ∧
      (run allows limit acc candidates).actions = acc.actions ++ taken.map (fun c => c.1.act c.2) ∧
      (run allows limit acc candidates).bytes = acc.bytes + (taken.map (·.1.sizeBytes)).sum ∧
      Chained P acc.handles (taken.map (·.1.handle)) := by
  induction candidates generalizing acc with
  | nil => exact ⟨[],.slnil,by simp [run],by simp [run],trivial⟩
  | cons c candidates ih =>
    have htail := ih (fun d hd => hP d (by simp [hd]))
    unfold run
    split_ifs with hl ha
    · exact ⟨[],List.nil_sublist _,by simp,by simp,trivial⟩
    · obtain ⟨taken,hsub,hact,hbytes,hchain⟩ := htail (acc.take c)
      refine ⟨c :: taken,hsub.cons_cons c,?_,?_,hP c (by simp) _ ha,hchain⟩
      · rw [hact]
        simp [take]
      · rw [hbytes]
        simp only [take,List.map_cons,List.sum_cons]
        omega
    · obtain ⟨taken,hsub,hact,hbytes,hchain⟩ := htail { acc with refused := acc.refused ++ [c.1] }
      exact ⟨taken,hsub.cons c,hact,hbytes,hchain⟩

/-- A loop over two lists is a loop over the first and then over the second; once the limit is
reached nothing is taken any more. -/
theorem run_append (acc : Selection) (before after : List Candidate) :
    run allows limit acc (before ++ after) = run allows limit (run allows limit acc before) after := by
  have hstop (acc : Selection) (hl : limit ≤ acc.bytes) (cs : List Candidate) :
      run allows limit acc cs = acc := by
    cases cs <;> simp [run,hl]
  induction before generalizing acc with
  | nil => rfl
  | cons c before ih =>
    by_cases hl : limit ≤ acc.bytes
    · rw [List.cons_append,hstop acc hl,hstop acc hl,hstop acc hl]
    · rw [List.cons_append,run,if_neg hl,run,if_neg hl]
      split_ifs
      · exact ih _
      · exact ih _

/-- The handles selected by a loop that starts with nothing. -/
theorem run_handles (candidates : List Candidate) :
    (run allows limit {} candidates).handles =
      ((run allows limit {} candidates).actions.map ResolvedPageAction.handle).toFinset := by
  induction candidates using List.reverseRecOn with
  | nil => rfl
  | append_singleton cs c ih =>
    rw [run_append,run]
    split_ifs
    · exact ih
    · simp only [run,take,List.map_append,List.map_cons,List.map_nil,List.toFinset_append,ih,
        PhysicalPageRecord.act]
      rw [Finset.insert_eq,Finset.union_comm]
      rfl
    · exact ih

theorem run_bytes_mono (acc : Selection) (candidates : List Candidate) :
    acc.bytes ≤ (run allows limit acc candidates).bytes := by
  obtain ⟨taken,-,-,hbytes,-⟩ := run_spec (P := fun _ _ => True) allows limit candidates
    (fun _ _ _ _ => trivial) acc
  omega

theorem run_handles_mono (acc : Selection) (candidates : List Candidate) :
    acc.handles ⊆ (run allows limit acc candidates).handles := by
  induction candidates generalizing acc with
  | nil => exact subset_rfl
  | cons c candidates ih =>
    rw [run]
    split_ifs
    · exact subset_rfl
    · exact (Finset.subset_insert _ _).trans (ih (acc.take c))
    · exact ih { acc with refused := acc.refused ++ [c.1] }

/-- Where an action comes from: its candidate was allowed by the selection of what stood before
it, and the limit was not reached. -/
theorem run_split {candidates : List Candidate} {before after : List ResolvedPageAction}
    {x : ResolvedPageAction}
    (h : (run allows limit {} candidates).actions = before ++ x :: after) :
    ∃ cs c rest, candidates = cs ++ c :: rest ∧ x = c.1.act c.2 ∧
      (run allows limit {} cs).actions = before ∧ allows c.1 (run allows limit {} cs).handles ∧
      (run allows limit {} cs).bytes < limit := by
  induction candidates using List.reverseRecOn generalizing after with
  | nil => simp [run] at h
  | append_singleton cs c ih =>
    have hearlier (after : List ResolvedPageAction)
        (h : (run allows limit {} cs).actions = before ++ x :: after) :
        ∃ cs' c' rest, cs ++ [c] = cs' ++ c' :: rest ∧ x = c'.1.act c'.2 ∧
          (run allows limit {} cs').actions = before ∧
          allows c'.1 (run allows limit {} cs').handles ∧ (run allows limit {} cs').bytes < limit := by
      obtain ⟨cs',c',rest,rfl,hrest⟩ := ih h
      exact ⟨cs',c',rest ++ [c],by simp,hrest⟩
    rw [run_append,run] at h
    split_ifs at h with hl ha
    · exact hearlier after h
    · rw [show (run allows limit ((run allows limit {} cs).take c) []).actions =
        (run allows limit {} cs).actions ++ [c.1.act c.2] from rfl] at h
      rcases List.eq_nil_or_concat after with rfl | ⟨after,y,rfl⟩
      · obtain ⟨hbefore,hx⟩ := List.append_inj' h rfl
        exact ⟨cs,c,[],rfl,(List.cons.inj hx).1.symm,hbefore,ha,not_le.mp hl⟩
      · rw [List.concat_eq_append,← List.cons_append,← List.append_assoc] at h
        exact hearlier after (List.append_inj' h rfl).1
    · exact hearlier after h

end Selection

namespace PageOwnershipIndex
variable {s : PageOwnershipIndex}

/-! ## Records -/

theorem mem_contextRecords {contextId : String} {p : PhysicalPageRecord} (hb : s.Base)
    (hp : p ∈ s.contextRecords contextId) :
    s.pages[p.handle]? = some p ∧ p.live ∧ p.handle ∈ s.pagesOf contextId := by
  unfold contextRecords at hp
  obtain ⟨h,hh,hp⟩ := List.mem_filterMap.mp hp
  rw [Dict.mem_sorted,livePagesOf,Finset.mem_filter] at hh
  have heq := hb.handle_eq h p hp
  rw [heq]
  refine ⟨hp,?_,hh.1⟩
  simpa [hp] using hh.2

/-- Filtering the values found under distinct handles keeps the handles distinct. -/
theorem nodup_filterMap_handles {hs : List PageHandle} (hb : s.Base) (hn : hs.Nodup) :
    ((hs.filterMap fun h => s.pages[h]?).map PhysicalPageRecord.handle).Nodup := by
  have hsub : List.Sublist ((hs.filterMap fun h => s.pages[h]?).map PhysicalPageRecord.handle) hs := by
    clear hn
    induction hs with
    | nil => simp
    | cons h hs ih =>
      cases hp : s.pages[h]? with
      | none => simpa [hp] using ih.cons h
      | some p => simpa [hp,hb.handle_eq h p hp] using ih.cons_cons h
  exact hn.sublist hsub

theorem contextRecords_nodup (hb : s.Base) (contextId : String) :
    ((s.contextRecords contextId).map PhysicalPageRecord.handle).Nodup :=
  nodup_filterMap_handles hb (Dict.nodup_sorted _)

/-- The handles of records kept under their own handles. -/
theorem handles_nodup {d : Dict PageHandle PhysicalPageRecord}
    (hd : ∀ (h : PageHandle) (p : PhysicalPageRecord), d[h]? = some p → p.handle = h) :
    d.vals.map PhysicalPageRecord.handle = d.keys ∧
      (d.vals.map PhysicalPageRecord.handle).Nodup := by
  have heq : d.vals.map PhysicalPageRecord.handle = d.keys := by
    unfold Dict.vals
    rw [← Std.ExtTreeMap.map_fst_toList_eq_keys,List.map_map]
    apply List.map_congr_left
    rintro ⟨h,p⟩ hp
    exact hd h p (Std.ExtTreeMap.mem_toList_iff_getElem?_eq_some.mp hp)
  refine ⟨heq,?_⟩
  rw [heq]
  exact Std.ExtTreeMap.nodup_keys

theorem vals_nodup (hb : s.Base) : (s.pages.vals.map PhysicalPageRecord.handle).Nodup :=
  (handles_nodup hb.handle_eq).2

/-! ## Walks over the forest -/

theorem width_le_edgeCount {next : PageHandle → Option (List PageHandle)}
    (hnext : ∀ h : PageHandle, Walk.width next h ≤
      (s.pages[h]?.map fun p => p.children.card).getD 0) (visited : List PageHandle) :
    Walk.weight next s.pages.keySet visited ≤ s.edgeCount := by
  have hle : Walk.weight next s.pages.keySet visited ≤ ∑ h ∈ s.pages.keySet, Walk.width next h :=
    Finset.sum_le_sum_of_subset (Finset.filter_subset _ _)
  refine hle.trans ?_
  rw [Dict.sum_keySet,edgeCount,Dict.vals,List.map_map]
  apply List.sum_le_sum
  rintro ⟨h,p⟩ hp
  have hw := hnext h
  rw [Std.ExtTreeMap.mem_toList_iff_getElem?_eq_some.mp hp] at hw
  exact hw

theorem width_domain {next : PageHandle → Option (List PageHandle)}
    (hnext : ∀ h : PageHandle, Walk.width next h ≤
      (s.pages[h]?.map fun p => p.children.card).getD 0) (h : PageHandle)
    (hw : Walk.width next h ≠ 0) : h ∈ s.pages.keySet := by
  rw [Dict.mem_keySet]
  by_contra hn
  have hle := hnext h
  rw [(Dict.notMem_iff_get _ _).mp hn] at hle
  simp at hle
  exact hw hle

theorem width_liveChildren (h : PageHandle) : Walk.width s.liveChildren h ≤
    (s.pages[h]?.map fun p => p.children.card).getD 0 := by
  unfold Walk.width liveChildren
  cases s.pages[h]? with
  | none => simp
  | some p => cases hl : p.live <;> simp [hl,Dict.length_sorted]

theorem width_gpuChildren (h : PageHandle) : Walk.width s.gpuChildren h ≤
    (s.pages[h]?.map fun p => p.children.card).getD 0 := by
  unfold Walk.width gpuChildren
  cases s.pages[h]? with
  | none => simp
  | some p => cases hl : p.gpuResident <;> simp [hl,Dict.length_sorted]

/-- A parent of a live page is live and lists it. -/
theorem Linked.edge_live (hl : s.Linked) {a b : PageHandle} (h : s.ParentEdge a b)
    {p : PhysicalPageRecord} (hp : s.pages[a]? = some p) (hlive : p.residency ≠ .dead) :
    ∃ q : PhysicalPageRecord, s.pages[b]? = some q ∧ q.residency ≠ .dead ∧ a ∈ q.children := by
  obtain ⟨p',hp',hpar⟩ := h
  rw [hp] at hp'
  obtain rfl := Option.some.inj hp'
  exact hl.parent_live a p b hp hlive hpar

/-- Every ancestor of a live page is live. -/
theorem Linked.ancestor_live (hl : s.Linked) {a b : PageHandle} (h : ReflTransGen s.ParentEdge a b)
    {p : PhysicalPageRecord} (hp : s.pages[a]? = some p) (hlive : p.residency ≠ .dead) :
    ∃ q : PhysicalPageRecord, s.pages[b]? = some q ∧ q.residency ≠ .dead := by
  induction h with
  | refl => exact ⟨p,hp,hlive⟩
  | tail _ hedge ih =>
    obtain ⟨q,hq,hqlive⟩ := ih
    obtain ⟨r,hr,hrlive,-⟩ := hl.edge_live hedge hq hqlive
    exact ⟨r,hr,hrlive⟩

/-- A path of parents from a live page is a path of the walk in the other direction. -/
theorem Linked.walk_down (hl : s.Linked) {a b : PageHandle} (h : ReflTransGen s.ParentEdge a b)
    {p : PhysicalPageRecord} (hp : s.pages[a]? = some p) (hlive : p.residency ≠ .dead) :
    ReflTransGen (fun x y => Walk.Edge s.liveChildren x y ∧ (s.liveChildren y).isSome) b a := by
  induction h with
  | refl => exact .refl
  | @tail b c hpath hedge ih =>
    obtain ⟨q,hq,hqlive⟩ := hl.ancestor_live hpath hp hlive
    obtain ⟨r,hr,hrlive,hmem⟩ := hl.edge_live hedge hq hqlive
    refine .head ⟨⟨_,by simp [liveChildren,hr]; rfl,?_⟩,?_⟩ ih
    · simpa [PhysicalPageRecord.live,hrlive] using hmem
    · simp [liveChildren,hq]

/-- A page the leaf check allows has all its GPU-resident descendants selected. -/
theorem leafClosureAllows_sound (hl : s.Linked) {page : PhysicalPageRecord} {h d : PageHandle}
    {selected : Finset PageHandle} (hp : s.pages[h]? = some page)
    (hallow : s.leafClosureAllows page selected) (hpath : TransGen s.ParentEdge d h)
    {p : PhysicalPageRecord} (hd : s.pages[d]? = some p) (hgpu : p.gpuResident) : d ∈ selected := by
  have hlive := live_of_gpuResident hgpu
  obtain ⟨c,hdc,hedge⟩ := TransGen.tail'_iff.mp hpath
  obtain ⟨q,hq,hqlive⟩ := hl.ancestor_live hdc hd hlive
  obtain ⟨r,hr,hrlive,hmem⟩ := hl.edge_live hedge hq hqlive
  rw [hp] at hr
  obtain rfl := Option.some.inj hr
  unfold leafClosureAllows at hallow
  rw [Bool.and_eq_true] at hallow
  obtain ⟨hstack,hclosed⟩ := Walk.explore_complete (width_domain width_liveChildren)
    (s.edgeCount + (Dict.sorted page.children).length) (Dict.sorted page.children) {}
    (by have := width_le_edgeCount (s := s) width_liveChildren []; simpa using this)
    (fun a ha => absurd ha (by simp))
  have hvisit := hclosed.reaches (hstack c (by simpa using hmem) (by simp [liveChildren,hq]))
    (hl.walk_down hdc hd hlive)
  have hsel := List.all_eq_true.mp hallow.2 d hvisit
  simpa [hd,hgpu] using hsel

/-- In a consistent index the leaf check looks at the descendants only, so it allows a page whose
GPU-resident descendants are selected. -/
theorem leafClosureAllows_of_selected (hl : s.Linked) {page : PhysicalPageRecord} {h : PageHandle}
    {selected : Finset PageHandle} (hp : s.pages[h]? = some page)
    (hsel : ∀ (d : PageHandle) (p : PhysicalPageRecord), TransGen s.ParentEdge d h →
      s.pages[d]? = some p → p.gpuResident → d ∈ selected) : s.leafClosureAllows page selected := by
  have hedge (a b : PageHandle) (hab : Walk.Edge s.liveChildren a b) :
      ∃ q : PhysicalPageRecord, s.pages[b]? = some q ∧ q.parent = some a := by
    obtain ⟨as,has,hb⟩ := hab
    unfold liveChildren at has
    cases hpa : s.pages[a]? with
    | none => simp_all
    | some p =>
      simp only [hpa,Option.some.injEq] at has
      subst has
      split_ifs at hb
      · obtain ⟨q,hq,-,hpar⟩ := hl.child_live a p b hpa (by simpa using hb)
        exact ⟨q,hq,hpar⟩
      · simp at hb
  have hchild (c : PageHandle) (hc : c ∈ page.children) : s.ParentEdge c h := by
    obtain ⟨q,hq,-,hpar⟩ := hl.child_live h page c hp hc
    exact ⟨q,hq,hpar⟩
  unfold leafClosureAllows
  rw [Bool.and_eq_true,decide_eq_true_eq,List.all_eq_true]
  constructor
  · refine Walk.explore_again_eq_nil (fun k => (s.pages[k]?).bind PhysicalPageRecord.parent) h
      (fun k => TransGen s.ParentEdge k h) (hl.acyclic h) ?_ ?_ ?_ rfl ?_ ?_
    · intro a b ha hab
      obtain ⟨q,hq,hpar⟩ := hedge a b hab
      exact .head ⟨q,hq,hpar⟩ ha
    · intro a b hab
      obtain ⟨q,hq,hpar⟩ := hedge a b hab
      simp [hq,hpar]
    · intro a as has
      unfold liveChildren at has
      cases hpa : s.pages[a]? with
      | none => simp_all
      | some p =>
        simp only [hpa,Option.some.injEq] at has
        subst has
        split_ifs
        · exact Dict.nodup_sorted _
        · exact List.nodup_nil
    · simpa using Dict.nodup_sorted page.children
    · intro c hc
      have hmem : c ∈ page.children := by simpa using hc
      obtain ⟨q,hq,hpar⟩ := hchild c hmem
      exact ⟨.single ⟨q,hq,hpar⟩,.inl (by simp [hq,hpar])⟩
  · intro d hd
    rcases Walk.explore_sound hd with h' | ⟨-,c,hc,hpath⟩
    · simp at h'
    · have hbelow : TransGen s.ParentEdge d h := by
        have hup : ReflTransGen s.ParentEdge d c := by
          clear hd
          induction hpath with
          | refl => exact .refl
          | tail _ hab ih =>
            obtain ⟨q,hq,hpar⟩ := hedge _ _ hab
            exact .head ⟨q,hq,hpar⟩ ih
        exact .tail' hup (hchild c (by simpa using hc))
      cases hpd : s.pages[d]? with
      | none => simp
      | some p =>
        by_cases hg : p.gpuResident
        · simp [hsel d p hbelow hpd hg]
        · simp [hg]

/-- The ancestors the prefetch check went over are GPU-resident or selected. -/
theorem prefetchClosureAllows_sound {selected : Finset PageHandle} {fuel : ℕ}
    {parent : Option PageHandle} (hallow : s.prefetchClosureAllows selected fuel parent)
    {q k : PageHandle} (hq : parent = some q) (hpath : ReflTransGen s.ParentEdge q k)
    {r : PhysicalPageRecord} (hr : s.pages[k]? = some r) : r.gpuResident ∨ k ∈ selected := by
  induction fuel generalizing parent q with
  | zero =>
    subst hq
    simp [prefetchClosureAllows] at hallow
  | succ fuel ih =>
    subst hq
    unfold prefetchClosureAllows at hallow
    cases hp : s.pages[q]? with
    | none => simp [hp] at hallow
    | some page =>
      simp only [hp] at hallow
      split_ifs at hallow with h₁ h₂
      rcases ReflTransGen.cases_head hpath with rfl | ⟨b,⟨page',hp',hb⟩,hrest⟩
      · rw [hp] at hr
        obtain rfl := Option.some.inj hr
        cases hg : page.gpuResident with
        | true => exact .inl rfl
        | false => exact .inr (by simpa [hg] using h₂)
      · rw [hp] at hp'
        obtain rfl := Option.some.inj hp'
        exact ih hallow hb hrest

end PageOwnershipIndex

namespace RadixArbiter
variable {a : RadixArbiter} {graph : RuntimeCausalContextGraph} {s : PageOwnershipIndex}
  {command : ControlCommand} {contextId : String} {c : Candidate}

/-! ## Candidates -/

theorem mem_offloadCandidates {shadow : Bool}
    (hc : c ∈ offloadCandidates graph s command shadow contextId) :
    c.1 ∈ s.contextRecords contextId ∧ (scanOffload graph command shadow c.1).2 = some c.2 := by
  unfold offloadCandidates at hc
  rw [(List.perm_insertionSort _ _).mem_iff] at hc
  obtain ⟨p,hp,hc⟩ := List.mem_filterMap.mp hc
  obtain ⟨action,haction,rfl⟩ := Option.map_eq_some_iff.mp hc
  exact ⟨hp,haction⟩

/-- A scanned candidate passes its gates, and its action fits its residency. -/
theorem scanOffload_some {shadow : Bool} {page : PhysicalPageRecord} {action : PhysicalPageAction}
    (h : (scanOffload graph command shadow page).2 = some action) :
    pageTransferBlockers page = [] ∧ (page.residency = .gpuOnly ∧ action = .startD2h ∨
      page.residency = .dualClean ∧ action = .commitCpu ∧ shadow = false) := by
  unfold scanOffload at h
  by_cases hgates : pageTransferBlockers page = []
  · refine ⟨hgates,?_⟩
    by_cases howner : pageHasActiveOwner graph command page
    · simp [hgates,howner] at h
    · cases hres : page.residency <;> cases shadow <;> simp_all
  · simp [hgates] at h

/-- Candidates made from some of the pages of a list. -/
theorem nodup_candidates {pages : List PhysicalPageRecord}
    (f : PhysicalPageRecord → Option PhysicalPageAction)
    (hn : (pages.map PhysicalPageRecord.handle).Nodup) :
    ((pages.filterMap fun page => (f page).map fun action => (page,action)).map
      (·.1.handle)).Nodup := by
  have hsub : List.Sublist ((pages.filterMap fun page =>
      (f page).map fun action => (page,action)).map (·.1.handle))
      (pages.map PhysicalPageRecord.handle) := by
    clear hn
    induction pages with
    | nil => simp
    | cons p pages ih =>
      cases hf : f p with
      | none => simpa [hf] using ih.cons p.handle
      | some action => simpa [hf] using ih.cons_cons p.handle
  exact hn.sublist hsub

theorem offloadCandidates_nodup (hb : s.Base) (shadow : Bool) (contextId : String) :
    ((offloadCandidates graph s command shadow contextId).map (·.1.handle)).Nodup := by
  unfold offloadCandidates
  rw [((List.perm_insertionSort _ _).map _).nodup_iff]
  exact nodup_candidates _ (PageOwnershipIndex.contextRecords_nodup hb contextId)

theorem mem_prefetchCandidates (hc : c ∈ prefetchCandidates s contextId) :
    c.1 ∈ s.contextRecords contextId ∧ c.1.residency = .cpuOnly ∧ c.1.transferIdle ∧
      c.2 = .startH2d := by
  unfold prefetchCandidates at hc
  obtain ⟨p,hp,rfl⟩ := List.mem_map.mp hc
  rw [(List.perm_insertionSort _ _).mem_iff,List.mem_filter] at hp
  obtain ⟨hmem,hgate⟩ := hp
  simp only [Bool.and_eq_true,decide_eq_true_eq] at hgate
  exact ⟨hmem,hgate.1.1,hgate.1.2,rfl⟩

theorem prefetchCandidates_nodup (hb : s.Base) (contextId : String) :
    ((prefetchCandidates s contextId).map (·.1.handle)).Nodup := by
  unfold prefetchCandidates
  rw [List.map_map]
  have hperm := (List.perm_insertionSort (fun p q => shallowestFirst p q)
    ((s.contextRecords contextId).filter fun page =>
      page.residency = .cpuOnly && page.transferIdle && page.isSealed)).map
        PhysicalPageRecord.handle
  refine (hperm.nodup_iff).mpr ?_
  exact (PageOwnershipIndex.contextRecords_nodup hb contextId).sublist
    ((List.filter_sublist (l := s.contextRecords contextId)).map _)

/-! ## Resolution -/

/-- A command that resolves to actions drops unowned pages, or is current and resolved by its
bundle or its kind. -/
theorem resolve_cases (hne : (a.resolve graph s command).pageActions ≠ []) :
    command.kind = .dropUnowned ∧ a.resolve graph s command = a.resolveDropUnowned s command ∨
    ∃ contextId epoch context, command.contextId = some contextId ∧
      command.contextEpoch = some epoch ∧ graph.contexts[contextId]? = some context ∧
      context.epoch = epoch ∧ s.contextEpoch[contextId]? = some epoch ∧
      ((∃ intent, command.physicalBundle = some intent ∧ a.resolve graph s command =
          a.resolvePhysicalBundle graph s command contextId epoch intent) ∨
        command.physicalBundle = none ∧
          a.resolve graph s command = a.resolveKind graph s command contextId) := by
  by_cases hdrop : command.kind = .dropUnowned
  · exact .inl ⟨hdrop,by simp [resolve,hdrop]⟩
  right
  rw [resolve,if_neg hdrop] at hne
  cases hc : command.contextId with
  | none => simp [hc,stale] at hne
  | some contextId =>
    cases he : command.contextEpoch with
    | none => simp [hc,he,stale] at hne
    | some epoch =>
      cases hg : graph.contexts[contextId]? with
      | none => simp [hc,he,hg,stale] at hne
      | some context =>
        cases hv : s.validateContextEpoch contextId epoch with
        | error e => simp [hc,he,hg,hv,stale,Except.isOk,Except.toBool] at hne
        | ok u =>
          have hindex := PageOwnershipIndex.validateContextEpoch_eq_ok hv
          by_cases hep : context.epoch = epoch
          · refine ⟨contextId,epoch,context,rfl,rfl,hg,hep,hindex,?_⟩
            rw [resolve,if_neg hdrop]
            cases hb : command.physicalBundle with
            | none => simp [hc,he,hg,hv,hep,Except.isOk,Except.toBool]
            | some intent => simp [hc,he,hg,hv,hep,Except.isOk,Except.toBool]
          · simp [hc,he,hg,hv,hep,stale,Except.isOk,Except.toBool] at hne

end RadixArbiter
end BeliefKV
