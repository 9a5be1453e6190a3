import BeliefKV.Joint.Online

/-! The groups of an epoch are the connected components of its slices. -/
namespace BeliefKV
open Components

/-! ## Ids of slices -/

theorem ne_of_take {p q : String} (h : p.toList.take 3 ≠ q.toList.take 3) (hp : 3 ≤ p.toList.length)
    (hq : 3 ≤ q.toList.length) (a b : String) : p ++ a ≠ q ++ b := by
  intro heq
  have hlist := congrArg (fun s => s.toList.take 3) heq
  simp only [String.toList_append] at hlist
  rw [List.take_append_of_le_length hp,List.take_append_of_le_length hq] at hlist
  exact h hlist

theorem request_ne_residency (a b : String) : "request:" ++ a ≠ "residency:" ++ b :=
  ne_of_take (by decide) (by decide) (by decide) a b

theorem dependency_ne_request (a b : String) : "dependency:" ++ a ≠ "request:" ++ b :=
  ne_of_take (by decide) (by decide) (by decide) a b

theorem dependency_ne_residency (a b : String) : "dependency:" ++ a ≠ "residency:" ++ b :=
  ne_of_take (by decide) (by decide) (by decide) a b

/-- What comes before the first colon is determined by the text. -/
theorem append_colon_inj {s t u v : List Char} (hs : ':' ∉ s) (ht : ':' ∉ t)
    (h : s ++ ':' :: u = t ++ ':' :: v) : s = t := by
  induction s generalizing t with
  | nil =>
    cases t with
    | nil => rfl
    | cons c t =>
      simp only [List.nil_append,List.cons_append,List.cons.injEq] at h
      simp [← h.1] at ht
  | cons c s ih =>
    cases t with
    | nil =>
      simp only [List.nil_append,List.cons_append,List.cons.injEq] at h
      simp [h.1] at hs
    | cons d t =>
      simp only [List.cons_append,List.cons.injEq] at h
      rw [List.mem_cons,not_or] at hs ht
      rw [h.1,ih hs.2 ht.2 h.2]

theorem colon_notMem_toString (n : ℕ) : ':' ∉ (toString n).toList := by
  intro hmem
  rw [Nat.toString_eq_ofList_toDigits,String.toList_ofList] at hmem
  exact absurd (Nat.isDigit_of_mem_toDigits (by decide) (by decide) hmem) (by decide)

/-- The id of a residency slice. -/
def residencySliceId (i : ℕ) (bundleId : String) : String :=
  "residency:" ++ toString i ++ ":" ++ bundleId

theorem residencySliceId_inj {i j : ℕ} {b c : String}
    (h : residencySliceId i b = residencySliceId j c) : i = j := by
  have hlist := congrArg String.toList h
  simp only [residencySliceId,String.toList_append,List.append_assoc] at hlist
  have hrest := List.append_cancel_left hlist
  have htext := append_colon_inj (colon_notMem_toString i) (colon_notMem_toString j) hrest
  exact Nat.repr_injective (String.toList_inj.mp htext)

/-! ## Groups -/

/-- The slices have their own ids, and depend on each other only as a residency intent depends on
the requests it serves. -/
structure SlicesTagged (slices : List ActionSlice) : Prop where
  nodup : (slices.map (·.sliceId)).Nodup
  tagged : ∀ s ∈ slices, (∃ id, s.sliceId = "request:" ++ id ∧
      ∀ d ∈ s.dependencyKeys, ∃ n, d = "dependency:" ++ n) ∨
    ∃ i b, s.sliceId = residencySliceId i b ∧ ∀ d ∈ s.dependencyKeys, ∃ id, d = "request:" ++ id

variable {slices : List ActionSlice}

theorem residencySliceId_eq (i : ℕ) (b : String) :
    residencySliceId i b = "residency:" ++ (toString i ++ ":" ++ b) := by
  simp [residencySliceId,String.append_assoc]

theorem mem_sliceIds {id : String} : id ∈ sliceIds slices ↔ ∃ s ∈ slices, s.sliceId = id := by
  simp [sliceIds]

theorem sliceById_eq (h : (slices.map (·.sliceId)).Nodup) {s : ActionSlice} (hs : s ∈ slices) :
    sliceById slices s.sliceId = some s := by
  unfold sliceById
  cases hfind : slices.reverse.find? (·.sliceId = s.sliceId) with
  | none =>
    have hnone := List.find?_eq_none.mp hfind s (by simpa using hs)
    simp at hnone
  | some t =>
    have ht := List.mem_of_find?_eq_some hfind
    have hid := List.find?_some hfind
    simp only [decide_eq_true_eq] at hid
    rw [List.inj_on_of_nodup_map h (by simpa using ht) hs hid]

/-- The edge of a slice and one it depends on. -/
theorem mem_sliceLinks {a b : String} : (a,b) ∈ sliceLinks slices ↔
    (∃ s ∈ slices, s.sliceId = a ∧ b ∈ s.dependencyKeys) ∧ b ∈ sliceIds slices := by
  simp only [sliceLinks,List.mem_flatMap,List.mem_map,List.mem_filter,decide_eq_true_eq,Prod.mk.injEq]
  constructor
  · rintro ⟨s,hs,d,⟨hd,hin⟩,rfl,rfl⟩
    exact ⟨⟨s,hs,rfl,hd⟩,hin⟩
  · rintro ⟨⟨s,hs,rfl,hd⟩,hin⟩
    exact ⟨s,hs,b,⟨hd,hin⟩,rfl,rfl⟩

theorem mem_sliceAdjacency {a b : String} : b ∈ sliceAdjacency slices a ↔
    (a,b) ∈ sliceLinks slices ∨ (b,a) ∈ sliceLinks slices := by
  simp only [sliceAdjacency,List.mem_toFinset,List.mem_append,List.mem_map,List.mem_filter,
    decide_eq_true_eq]
  constructor
  · rintro (⟨⟨x,y⟩,⟨hmem,rfl⟩,rfl⟩ | ⟨⟨x,y⟩,⟨hmem,rfl⟩,rfl⟩)
    · exact .inl hmem
    · exact .inr hmem
  · rintro (hmem | hmem)
    · exact .inl ⟨(a,b),⟨hmem,rfl⟩,rfl⟩
    · exact .inr ⟨(b,a),⟨hmem,rfl⟩,rfl⟩

theorem sliceAdjacency_symm {a b : String} (h : b ∈ sliceAdjacency slices a) :
    a ∈ sliceAdjacency slices b := by
  rw [mem_sliceAdjacency] at h ⊢
  exact h.symm

theorem sliceAdjacency_subset (a : String) : sliceAdjacency slices a ⊆ sliceIds slices := by
  intro b hb
  rcases mem_sliceAdjacency.mp hb with h | h
  · exact (mem_sliceLinks.mp h).2
  · obtain ⟨⟨s,hs,hid,-⟩,-⟩ := mem_sliceLinks.mp h
    exact mem_sliceIds.mpr ⟨s,hs,hid⟩

theorem actionGroupOf_ids (h : (slices.map (·.sliceId)).Nodup) {c : Finset String}
    (hc : c ⊆ sliceIds slices) (n : ℕ) :
    (actionGroupOf slices c n).actionIds = c.sort (· ≤ ·) := by
  have hall (ids : List String) (hids : ∀ id ∈ ids, id ∈ sliceIds slices) :
      (ids.filterMap (sliceById slices)).map (·.sliceId) = ids := by
    induction ids with
    | nil => rfl
    | cons id ids ih =>
      obtain ⟨s,hs,rfl⟩ := mem_sliceIds.mp (hids id (by simp))
      rw [List.filterMap_cons,sliceById_eq h hs,List.map_cons,
        ih fun k hk => hids k (List.mem_cons_of_mem _ hk)]
  exact hall _ fun id hid => hc ((Finset.mem_sort _).mp hid)

theorem mem_actionGroupOf {c : Finset String} {n : ℕ} {s : ActionSlice}
    (hs : s ∈ (actionGroupOf slices c n).actions) : s ∈ slices := by
  obtain ⟨id,-,hid⟩ := List.mem_filterMap.mp hs
  exact List.mem_reverse.mp (List.mem_of_find?_eq_some hid)

/-- Residency slices come after the requests they serve. -/
def sliceRank (id : String) : ℕ := if id.toList.take 3 = ['r','e','s'] then 1 else 0

theorem sliceRank_request (id : String) : sliceRank ("request:" ++ id) = 0 := by
  unfold sliceRank
  rw [if_neg]
  rw [String.toList_append,List.take_append_of_le_length (by decide)]
  decide

theorem sliceRank_residency (i : ℕ) (b : String) : sliceRank (residencySliceId i b) = 1 := by
  unfold sliceRank
  rw [residencySliceId_eq,String.toList_append,List.take_append_of_le_length (by decide)]
  decide

/-- The edges of a group lead from requests to residency intents. -/
theorem mem_dependencyDag (h : SlicesTagged slices) {c : Finset String} (hc : c ⊆ sliceIds slices)
    {n : ℕ} {e : String × String} (he : e ∈ (actionGroupOf slices c n).dependencyDag) :
    e.1 ∈ c ∧ e.2 ∈ c ∧ (∃ id, e.1 = "request:" ++ id) ∧ ∃ i b, e.2 = residencySliceId i b := by
  simp only [actionGroupOf,List.mem_toFinset,List.mem_flatMap,List.mem_map,List.mem_filter,
    decide_eq_true_eq] at he
  obtain ⟨s,hs,d,⟨hd,hdc⟩,rfl⟩ := he
  obtain ⟨id,hid,hfind⟩ := List.mem_filterMap.mp hs
  have hsid : s.sliceId = id := by simpa using List.find?_some hfind
  have hin : s ∈ slices := List.mem_reverse.mp (List.mem_of_find?_eq_some hfind)
  refine ⟨hdc,hsid ▸ (Finset.mem_sort _).mp hid,?_⟩
  rcases h.tagged s hin with ⟨r,-,hdeps⟩ | ⟨i,b,hsb,hdeps⟩
  · -- The keys of a request's slice are no ids of slices.
    obtain ⟨m,rfl⟩ := hdeps d hd
    obtain ⟨t,ht,htid⟩ := mem_sliceIds.mp (hc hdc)
    rcases h.tagged t ht with ⟨r',hr',-⟩ | ⟨i,b,hb,-⟩
    · exact absurd (htid.symm.trans hr') (dependency_ne_request _ _)
    · rw [residencySliceId_eq] at hb
      exact absurd (htid.symm.trans hb) (dependency_ne_residency _ _)
  · obtain ⟨r,rfl⟩ := hdeps d hd
    exact ⟨⟨r,rfl⟩,i,b,hsb⟩

theorem append_ne_empty {p : String} (hp : p ≠ "") (a : String) : p ++ a ≠ "" := by
  intro heq
  have hlen := congrArg String.length heq
  rw [String.length_append] at hlen
  simp only [String.length_empty,Nat.add_eq_zero_iff,String.length_eq_zero_iff] at hlen
  exact hp hlen.1

/-- The constructor accepts the group of a component. -/
theorem actionGroupOf_check (h : SlicesTagged slices) {c : Finset String} (hc : c ⊆ sliceIds slices)
    (hne : c.Nonempty) (n : ℕ) : (actionGroupOf slices c n).check = .ok () := by
  have hids := actionGroupOf_ids h.nodup hc n
  have hset : (actionGroupOf slices c n).actionIds.toFinset = c := by rw [hids,Finset.sort_toFinset]
  have hmem (id : String) : id ∈ (actionGroupOf slices c n).actionIds ↔ id ∈ c := by
    rw [hids,Finset.mem_sort]
  have hedge {e : String × String} (he : e ∈ (actionGroupOf slices c n).dependencyDag) :=
    mem_dependencyDag h hc he
  have hrank : ∀ e ∈ (actionGroupOf slices c n).dependencyDag, sliceRank e.1 < sliceRank e.2 := by
    intro e he
    obtain ⟨-,-,⟨id,h₁⟩,i,b,h₂⟩ := hedge he
    rw [h₁,h₂,sliceRank_request,sliceRank_residency]
    exact Nat.zero_lt_one
  have hvisits : Kahn.visits c (actionGroupOf slices c n).dependencyDag = c.card :=
    Kahn.visits_eq (fun e he => ⟨(hedge he).1,(hedge he).2.1⟩) sliceRank hrank
  have hactions : (actionGroupOf slices c n).actions ≠ [] := by
    intro hnil
    obtain ⟨id,hid⟩ := hne
    have hin := (hmem id).mpr hid
    simp [ActionGroup.actionIds,hnil] at hin
  have hcommit : ¬ ((actionGroupOf slices c n).committed = true ∧
      ((actionGroupOf slices c n).reasons ≠ [] ∨
        ∃ a ∈ (actionGroupOf slices c n).actions, a.committed = false)) := by
    rintro ⟨hall,hreasons | ⟨a,ha,hfalse⟩⟩
    · have hall' : ((c.sort (· ≤ ·)).filterMap (sliceById slices)).all (·.committed) = true := hall
      simp [actionGroupOf,hall'] at hreasons
    · have htrue := List.all_eq_true.mp hall a ha
      simp [hfalse] at htrue
  have hdag : ∀ e ∈ (actionGroupOf slices c n).dependencyDag, e.1 ≠ "" ∧ e.2 ≠ "" ∧ e.1 ≠ e.2 ∧
      e.1 ∈ (actionGroupOf slices c n).actionIds ∧ e.2 ∈ (actionGroupOf slices c n).actionIds := by
    intro e he
    obtain ⟨hin₁,hin₂,⟨id,h₁⟩,i,b,h₂⟩ := hedge he
    refine ⟨?_,?_,?_,(hmem _).mpr hin₁,(hmem _).mpr hin₂⟩
    · rw [h₁]
      exact append_ne_empty (by decide) id
    · rw [h₂,residencySliceId_eq]
      exact append_ne_empty (by decide) _
    · intro heq
      have hlt := hrank e he
      rw [heq] at hlt
      exact lt_irrefl _ hlt
  unfold ActionGroup.check
  simp only [bind_eq_ok,ensure_eq_ok]
  refine ⟨(),⟨append_ne_empty (by decide) _,hactions⟩,(),?_,(),hdag,(),?_,(),hcommit,?_⟩
  · rw [hids]
    exact Finset.sort_nodup _ _
  · rw [hset]
    exact hvisits
  · intro hmode
    cases hmode

/-- The groups split the slices into the connected components of their dependencies. -/
structure GroupsSound (slices : List ActionSlice) (groups : List ActionGroup) : Prop where
  actions : ∀ g ∈ groups, ∀ s ∈ g.actions, s ∈ slices
  nodup : (groups.flatMap ActionGroup.actionIds).Nodup
  cover : ∀ s ∈ slices, ∃ g ∈ groups, s ∈ g.actions
  connected : ∀ g ∈ groups, ∀ a ∈ g.actionIds, ∀ b,
    b ∈ g.actionIds ↔ Reaches (sliceAdjacency slices) a b

theorem actionGroupsFromSlices_sound (h : SlicesTagged slices) :
    ∃ groups, actionGroupsFromSlices slices = .ok groups ∧ GroupsSound slices groups := by
  set classes := split (sliceAdjacency slices) (sliceIds slices).card (sliceIds slices).card
    (sliceIds slices) with hclasses
  have hsplit : Splits (sliceAdjacency slices) (sliceIds slices) classes :=
    split_splits (fun a b => sliceAdjacency_symm) (fun a _ => sliceAdjacency_subset a) le_rfl le_rfl
  have hsub {c : Finset String} (hc : c ∈ classes) : c ⊆ sliceIds slices :=
    fun a ha => (hsplit.cover a).mpr ⟨c,hc,ha⟩
  have hfst {e : Finset String × ℕ} (he : e ∈ classes.zipIdx 1) : e.1 ∈ classes :=
    List.fst_mem_of_mem_zipIdx he
  have hids {e : Finset String × ℕ} (he : e ∈ classes.zipIdx 1) :=
    actionGroupOf_ids h.nodup (hsub (hfst he)) e.2
  have hmake : ∀ e ∈ classes.zipIdx 1, (do
      (actionGroupOf slices e.1 e.2).check
      .ok (actionGroupOf slices e.1 e.2) : Except Raised ActionGroup) =
        .ok (actionGroupOf slices e.1 e.2) := by
    intro e he
    rw [actionGroupOf_check h (hsub (hfst he)) (hsplit.nonempty _ (hfst he)) e.2]
    rfl
  refine ⟨_,mapM_eq_ok hmake,?_,?_,?_,?_⟩
  · intro g hg s hs
    obtain ⟨e,-,rfl⟩ := List.mem_map.mp hg
    exact mem_actionGroupOf hs
  · have hflat : ((classes.zipIdx 1).map fun e => actionGroupOf slices e.1 e.2).flatMap
        ActionGroup.actionIds = classes.flatMap fun c => c.sort (· ≤ ·) := by
      rw [List.flatMap_map]
      have hcongr : (classes.zipIdx 1).flatMap (fun e => (actionGroupOf slices e.1 e.2).actionIds) =
          (classes.zipIdx 1).flatMap fun e => e.1.sort (· ≤ ·) :=
        List.flatMap_congr fun e he => hids he
      have hfirst : (classes.zipIdx 1).flatMap (fun e => e.1.sort (· ≤ ·)) =
          ((classes.zipIdx 1).map Prod.fst).flatMap fun c => c.sort (· ≤ ·) := by
        rw [List.flatMap_map]
      rw [hcongr,hfirst,List.zipIdx_map_fst]
    rw [hflat,List.nodup_flatMap]
    refine ⟨fun c _ => Finset.sort_nodup _ _,hsplit.disjoint.imp fun hdisj => ?_⟩
    intro a ha hb
    rw [Finset.mem_sort] at ha hb
    exact Finset.disjoint_left.mp hdisj ha hb
  · intro s hs
    obtain ⟨c,hc,hin⟩ := (hsplit.cover s.sliceId).mp (mem_sliceIds.mpr ⟨s,hs,rfl⟩)
    obtain ⟨n,hn⟩ : ∃ n, (c,n) ∈ classes.zipIdx 1 := by
      rw [← List.zipIdx_map_fst 1 classes] at hc
      obtain ⟨e,he,rfl⟩ := List.mem_map.mp hc
      exact ⟨e.2,he⟩
    refine ⟨actionGroupOf slices c n,List.mem_map.mpr ⟨(c,n),hn,rfl⟩,?_⟩
    exact List.mem_filterMap.mpr ⟨s.sliceId,(Finset.mem_sort _).mpr hin,sliceById_eq h.nodup hs⟩
  · intro g hg a ha b
    obtain ⟨e,he,rfl⟩ := List.mem_map.mp hg
    rw [hids he,Finset.mem_sort] at ha ⊢
    exact hsplit.connected _ (hfst he) a ha b

end BeliefKV
