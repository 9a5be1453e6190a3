import BeliefKV.Radix.Replay

/-! What the replays of a frozen workload say, in every order in which its requests can complete. -/
namespace BeliefKV.FrozenWorkload
open Call
namespace TokenRadixReplay

/-! ## The orders that are accepted -/

section Accepted
variable {w : FrozenCounterfactualWorkload} {order : List String} {rs : List FrozenRequestDemand}
  {s t : TokenRadixReplay} {known : Option Bool} {partials : Bool} {result : TokenRadixReplayResult}

abbrev CompletionOrder (w : FrozenCounterfactualWorkload) (order : List String) : Prop :=
  Precedence.Topological w.requestIds.toFinset (fun id => (predecessors w.requests id).toFinset) order

theorem commits_ne_nil (w : FrozenCounterfactualWorkload) (hcomplete : w.prefixIdentityComplete = true) :
    ∀ r ∈ w.requests, r.cacheCommitTokenSymbols ≠ [] := by
  intro r hr
  have h := w.consistent.requests_ok r hr
  unfold WorkloadArguments.checkRequest at h
  obtain ⟨_,-,h⟩ := bind_eq_ok.mp h
  obtain ⟨_,-,h⟩ := bind_eq_ok.mp h
  exact (ensure_eq_ok.mp h hcomplete).2

theorem completionOrder_of_follows (hnodup : (rs.map (·.requestId)).Nodup)
    (hall : (rs.map (·.requestId)).toFinset = w.requestIds.toFinset) (hfollows : Follows w.requests [] rs) :
    CompletionOrder w (rs.map (·.requestId)) := by
  refine ⟨hnodup,fun id => by rw [← hall,List.mem_toFinset],fun before id after horder p hp => ?_⟩
  obtain ⟨before,rest,rfl,rfl,hrest⟩ := List.map_eq_append_iff.mp horder
  obtain ⟨r,after,rfl,rfl,rfl⟩ := List.map_eq_cons_iff.mp hrest
  obtain ⟨hmem,hfree⟩ := follows_iff.mp hfollows before r after rfl
  rw [List.mem_toFinset,predecessors_of_mem w.consistent.requests_unique hmem] at hp
  exact hfree p hp

theorem exists_requests (horder : ∀ id ∈ order, id ∈ w.requestIds) :
    ∃ rs : List FrozenRequestDemand, rs.map (·.requestId) = order ∧ ∀ r ∈ rs, r ∈ w.requests := by
  induction order with
  | nil => exact ⟨[],rfl,fun r hr => absurd hr List.not_mem_nil⟩
  | cons id order ih =>
    obtain ⟨rs,rfl,hrs⟩ := ih fun id' h => horder id' (List.mem_cons_of_mem id h)
    obtain ⟨r,hr,rfl⟩ := List.mem_map.mp (horder id List.mem_cons_self)
    refine ⟨r :: rs,rfl,fun r' hr' => ?_⟩
    obtain rfl | hr' := List.mem_cons.mp hr'
    · exact hr
    · exact hrs r' hr'

theorem CompletionOrder.exists_follows (h : CompletionOrder w order) :
    ∃ rs : List FrozenRequestDemand, rs.map (·.requestId) = order ∧ Follows w.requests [] rs := by
  obtain ⟨rs,rfl,hrs⟩ := exists_requests fun id hid => List.mem_toFinset.mp ((h.mem_iff id).mp hid)
  refine ⟨rs,rfl,follows_iff.mpr fun before r after hsplit => ?_⟩
  have hmem := hrs r (by simp [hsplit])
  refine ⟨hmem,fun p hp => ?_⟩
  apply h.respected (before.map (·.requestId)) r.requestId (after.map (·.requestId)) (by simp [hsplit])
  rwa [List.mem_toFinset,predecessors_of_mem w.consistent.requests_unique hmem]

/-- What a replay that returns has done. -/
structure Replayed (w : FrozenCounterfactualWorkload) (s t : TokenRadixReplay) (order : List String)
    (result : TokenRadixReplayResult) (rs : List FrozenRequestDemand) : Prop where
  complete : w.prefixIdentityComplete = true
  ids : rs.map (·.requestId) = order
  accepted : CompletionOrder w order
  follows : Follows w.requests [] rs
  state : Same t (s.completions rs)
  demands : result.requestDemands = s.demands rs
  hits : result.observedHitMatchCount = (s.demands rs).countP Matches
  misses : result.observedHitMismatchCount = (s.demands rs).length - (s.demands rs).countP Matches
  final : result.finalUniqueCacheTokens = t.uniqueTokens

theorem foldl_add (progress : Progress) (ds : List RequestRadixDemand) : ds.foldl Progress.add progress =
    { completed := progress.completed ++ ds.map (·.requestId)
      demands := progress.demands ++ ds
      hitMatches := progress.hitMatches + ds.countP Matches } := by
  induction ds generalizing progress with
  | nil => simp
  | cons d ds ih =>
    rw [List.foldl_cons,ih]
    simp [Progress.add,List.countP_cons]
    omega

@[simp] theorem length_demands (s : TokenRadixReplay) (rs : List FrozenRequestDemand) :
    (s.demands rs).length = rs.length := by
  induction rs generalizing s with
  | nil => rfl
  | cons r rs ih => simp [demands,ih]

theorem replayed (hrun : s.replayCompletionOrder w order known partials = (t,.ok result)) :
    ∃ rs, Replayed w s t order result rs := by
  unfold replayCompletionOrder at hrun
  split_ifs at hrun with hcomplete hlisted
  · cases hrun
  · cases hrun
  · rw [Bool.not_eq_false] at hcomplete
    push Not at hlisted
    obtain ⟨progress,hok,hresult⟩ := andThen_eq_ok.mp hrun
    obtain ⟨rs,rfl,hfollows,hstate,rfl⟩ := replayRequests_ok (commits_ne_nil w hcomplete) hok
    cases hresult
    have haccepted := completionOrder_of_follows hlisted.1 hlisted.2 hfollows
    refine ⟨rs,hcomplete,rfl,haccepted,hfollows,hstate,?_,?_,?_,rfl⟩
    · simp [foldl_add]
    · simp [foldl_add]
    · simp [foldl_add]

theorem replay_of_accepted (hcomplete : w.prefixIdentityComplete = true) (haccepted : CompletionOrder w order)
    (s : TokenRadixReplay) (known : Option Bool) (partials : Bool) :
    ∃ result, (s.replayCompletionOrder w order known partials).2 = .ok result := by
  obtain ⟨rs,rfl,hfollows⟩ := haccepted.exists_follows
  obtain ⟨progress,hok⟩ : ∃ progress,
      (replayRequests w.requests partials s {} (rs.map (·.requestId))).2 = .ok progress :=
    replayRequests_of_follows (commits_ne_nil w hcomplete) w.consistent.requests_unique hfollows
  have hlisted : ¬ (¬ (rs.map (·.requestId)).Nodup ∨ (rs.map (·.requestId)).toFinset ≠ w.requestIds.toFinset) := by
    push Not
    refine ⟨haccepted.nodup,?_⟩
    ext id
    rw [List.mem_toFinset,haccepted.mem_iff]
  unfold replayCompletionOrder
  rw [if_neg (by simp [hcomplete]),if_neg hlisted]
  generalize replayRequests w.requests partials s {} (rs.map (·.requestId)) = call at hok ⊢
  obtain ⟨u,r⟩ := call
  obtain rfl : r = .ok progress := hok
  exact ⟨_,rfl⟩

/-- A workload can be replayed exactly in the orders in which its requests can complete, and there is one. -/
theorem replay_accepts_iff (w : FrozenCounterfactualWorkload) (s : TokenRadixReplay) (known : Option Bool)
    (partials : Bool) :
    (∀ order, (∃ result, (s.replayCompletionOrder w order known partials).2 = .ok result) ↔
      w.prefixIdentityComplete = true ∧
        Precedence.Topological w.requestIds.toFinset (fun id => (predecessors w.requests id).toFinset) order) ∧
    (w.prefixIdentityComplete = true →
      ∃ order result, (s.replayCompletionOrder w order known partials).2 = .ok result) := by
  constructor
  · intro order
    constructor
    · rintro ⟨result,hok⟩
      obtain ⟨rs,h⟩ := replayed (t := (s.replayCompletionOrder w order known partials).1) (Prod.ext rfl hok)
      exact ⟨h.complete,h.accepted⟩
    · rintro ⟨hcomplete,haccepted⟩
      exact replay_of_accepted hcomplete haccepted s known partials
  · intro hcomplete
    have hknown : ∀ id ∈ w.requestIds.toFinset, ∀ p ∈ (predecessors w.requests id).toFinset,
        p ∈ w.requestIds.toFinset := by
      intro id hid p hp
      obtain ⟨r,hr,rfl⟩ := List.mem_map.mp (List.mem_toFinset.mp hid)
      rw [List.mem_toFinset,predecessors_of_mem w.consistent.requests_unique hr] at hp
      exact List.mem_toFinset.mpr (w.consistent.predecessors_known r hr p hp)
    have hacyclic := w.acyclic
    rw [← precedes_eq w.consistent.requests_unique] at hacyclic
    obtain ⟨order,horder⟩ := Precedence.exists_topological hacyclic hknown
    exact ⟨order,replay_of_accepted hcomplete horder s known partials⟩

/-- The paths that are committed on the way to a final one change nothing, not even the error of an order. -/
theorem replay_partials (w : FrozenCounterfactualWorkload) (s : TokenRadixReplay) (order : List String)
    (known : Option Bool) :
    (s.replayCompletionOrder w order known true).2 =
      (s.replayCompletionOrder w order known false).2.map fun result =>
        { result with concurrentPartialCommitsModeled := true } := by
  unfold replayCompletionOrder
  split_ifs with hcomplete hlisted
  · rfl
  · rfl
  · rw [Bool.not_eq_false] at hcomplete
    obtain ⟨hstate,hprogress⟩ := replayRequests_same (commits_ne_nil w hcomplete) (Same.refl s) true false {} order
    have hcounted := hstate.counted
    generalize replayRequests w.requests true s {} order = call at hcounted hprogress ⊢
    generalize replayRequests w.requests false s {} order = call' at hcounted hprogress ⊢
    obtain ⟨u,r⟩ := call
    obtain ⟨u',r'⟩ := call'
    obtain rfl : r = r' := hprogress
    cases r with
    | error e => rfl
    | ok progress =>
      have hfinal : u.uniqueTokens = u'.uniqueTokens := hcounted
      simp [Except.map,hfinal]

end Accepted

/-! ## The paths in the cache -/

section Caches
variable {s t : TokenRadixReplay} {paths : List (List ℤ)} {path : List ℤ}

/-- The cache has the prefixes of some paths, and counts them. -/
structure Caches (s : TokenRadixReplay) (paths : List (List ℤ)) : Prop where
  holds : s.root.Holds (Prefixes.union paths)
  counted : s.uniqueTokens = (Prefixes.union paths).card

theorem caches_empty : Caches {} [] := ⟨Trie.holds_empty,rfl⟩

theorem Caches.same (h : Caches s paths) (hsame : Same s t) : Caches t paths :=
  ⟨fun q hq => (hsame.has q).symm.trans (h.holds q hq),hsame.counted.symm.trans h.counted⟩

theorem Caches.grown (h : Caches s paths) (path : List ℤ) : Caches (s.grown path) (paths ++ [path]) := by
  have hunion : Prefixes.union (paths ++ [path]) = Prefixes.union paths ∪ (Prefixes.along [] path).toFinset := by
    rw [Prefixes.union_perm (List.perm_append_singleton path paths),Prefixes.union_cons,Finset.union_comm]
  constructor
  · rw [hunion]
    exact h.holds.grow path
  · rw [hunion,h.holds.card_grow path,← h.counted]
    rfl

theorem Caches.foldl_grown (h : Caches s paths) (more : List (List ℤ)) :
    Caches (more.foldl TokenRadixReplay.grown s) (paths ++ more) := by
  induction more generalizing s paths with
  | nil => rwa [List.append_nil]
  | cons path more ih =>
    have := ih (h.grown path)
    rwa [List.append_assoc] at this

theorem Caches.perm {paths' : List (List ℤ)} (h : Caches s paths) (hperm : paths.Perm paths') : Caches s paths' := by
  have hunion := Prefixes.union_perm hperm
  exact ⟨hunion ▸ h.holds,hunion ▸ h.counted⟩

theorem Caches.has_iff (h : Caches s paths) : s.root.Has path ↔ path = [] ∨ ∃ p ∈ paths, path <+: p := by
  by_cases hne : path = []
  · simp [hne]
  · rw [h.holds path hne,Prefixes.union,List.mem_toFinset,List.mem_flatMap]
    simp [Prefixes.mem_along_nil,hne]

theorem insertBelow_unsigned {node : Trie ℤ} {n : ℕ} (h : (insertBelow node path).2 = .ok n) :
    RequestArguments.Unsigned path := by
  induction path generalizing node n with
  | nil => exact fun x hx => absurd hx List.not_mem_nil
  | cons symbol path ih =>
    rw [insertBelow] at h
    split_ifs at h with hsymbol
    have hrest : RequestArguments.Unsigned path := by
      cases hchild : node.get? symbol with
      | some child =>
        rw [hchild] at h
        exact ih h
      | none =>
        rw [hchild] at h
        cases hbelow : (insertBelow .empty path).2 with
        | ok k => exact ih hbelow
        | error e => simp [hbelow,Except.map] at h
    intro x hx
    obtain rfl | hx := List.mem_cons.mp hx
    · omega
    · exact hrest x hx

theorem insertPath_unsigned {n : ℕ} (h : (s.insertPath path).2 = .ok n) : RequestArguments.Unsigned path := by
  unfold insertPath at h
  generalize hcall : insertBelow s.root path = call at h
  obtain ⟨root,r⟩ := call
  cases r with
  | error e => cases h
  | ok m => exact insertBelow_unsigned (n := m) (congrArg Prod.snd hcall)

theorem insertPaths_unsigned {n : ℕ} (h : s.insertPaths paths = (t,.ok n)) :
    ∀ p ∈ paths, RequestArguments.Unsigned p := by
  induction paths generalizing s n with
  | nil => exact fun p hp => absurd hp List.not_mem_nil
  | cons path paths ih =>
    rw [insertPaths] at h
    obtain ⟨m,hfirst,h⟩ := andThen_eq_ok.mp h
    obtain ⟨more,hmore,h⟩ := andThen_eq_ok.mp h
    cases h
    have hrest := ih (Prod.ext rfl hmore)
    intro p hp
    obtain rfl | hp := List.mem_cons.mp hp
    · exact insertPath_unsigned hfirst
    · exact hrest p hp

/-- What calls that return have put into a cache. -/
inductive Reached : TokenRadixReplay → List (List ℤ) → Prop
  | new {initialPaths : List (List ℤ)} {s : TokenRadixReplay} (h : new initialPaths = .ok s) : Reached s initialPaths
  | insert {s t : TokenRadixReplay} {paths : List (List ℤ)} {path : List ℤ} {n : ℕ} (h : Reached s paths)
      (hcall : s.insertPath path = (t,.ok n)) : Reached t (paths ++ [path])
  | replay {s t : TokenRadixReplay} {paths : List (List ℤ)} {w : FrozenCounterfactualWorkload} {order : List String}
      {known : Option Bool} {partials : Bool} {result : TokenRadixReplayResult} (h : Reached s paths)
      (hcall : s.replayCompletionOrder w order known partials = (t,.ok result)) :
      Reached t (paths ++ w.requests.map (·.cacheCommitTokenSymbols))

theorem Caches.completions (h : Caches s paths) (rs : List FrozenRequestDemand) :
    Caches (s.completions rs) (paths ++ rs.map (·.cacheCommitTokenSymbols)) := h.foldl_grown _

theorem eq_of_requestId {w : FrozenCounterfactualWorkload} {r r' : FrozenRequestDemand} (hr : r ∈ w.requests)
    (hr' : r' ∈ w.requests) (hsame : r.requestId = r'.requestId) : r = r' := by
  have hfind := (find?_eq_some_iff w.consistent.requests_unique).mpr ⟨hr,hsame⟩
  have hfind' := (find?_eq_some_iff w.consistent.requests_unique).mpr ⟨hr',rfl⟩
  exact Option.some.inj (hfind.symm.trans hfind')

section Replayed
variable {w : FrozenCounterfactualWorkload} {order : List String} {result : TokenRadixReplayResult}
  {rs : List FrozenRequestDemand} (hreplayed : Replayed w s t order result rs)
include hreplayed

theorem Replayed.mem {r : FrozenRequestDemand} (hr : r ∈ rs) : r ∈ w.requests := by
  obtain ⟨before,after,rfl⟩ := List.append_of_mem hr
  exact (follows_iff.mp hreplayed.follows before r after rfl).1

theorem Replayed.perm : rs.Perm w.requests := by
  have hnodup : (rs.map (·.requestId)).Nodup := hreplayed.ids ▸ hreplayed.accepted.nodup
  have hrequests := w.consistent.requests_unique
  refine (List.perm_ext_iff_of_nodup hnodup.of_map hrequests.of_map).mpr fun r => ⟨hreplayed.mem,fun hr => ?_⟩
  have hid : r.requestId ∈ rs.map (·.requestId) := by
    rw [hreplayed.ids,hreplayed.accepted.mem_iff,List.mem_toFinset]
    exact List.mem_map_of_mem hr
  obtain ⟨r',hr',hsame⟩ := List.mem_map.mp hid
  rwa [← eq_of_requestId (hreplayed.mem hr') hr hsame]

theorem Replayed.caches (h : Caches s paths) : Caches t (paths ++ w.requests.map (·.cacheCommitTokenSymbols)) := by
  have hcompleted := (h.completions rs).same hreplayed.state.symm
  exact hcompleted.perm ((hreplayed.perm.map _).append_left paths)

end Replayed

theorem Reached.caches (h : Reached s paths) : Caches s paths := by
  induction h with
  | @new paths s hnew =>
    unfold TokenRadixReplay.new at hnew
    generalize hcall : insertPaths {} paths = call at hnew
    obtain ⟨u,r⟩ := call
    cases r with
    | error e => cases hnew
    | ok n =>
      cases hnew
      rw [insertPaths_eq (insertPaths_unsigned hcall)] at hcall
      cases hcall
      exact caches_empty.foldl_grown paths
  | @insert s t paths path n h hcall ih =>
    have hunsigned := insertPath_unsigned (congrArg Prod.snd hcall)
    rw [insertPath_eq hunsigned] at hcall
    cases hcall
    exact ih.grown path
  | @replay s t paths w order known partials result h hcall ih =>
    obtain ⟨rs,hreplayed⟩ := replayed hcall
    exact hreplayed.caches ih

end Caches

/-! ## What a replay says -/

section Results
variable {s t : TokenRadixReplay} {paths : List (List ℤ)} {w : FrozenCounterfactualWorkload} {order : List String}
  {known : Option Bool} {partials : Bool} {result : TokenRadixReplayResult} {rs : List FrozenRequestDemand}

theorem Caches.matchPrompt_greatest (h : Caches s paths) (prompt : List ℤ) :
    IsGreatest {n | n ≤ prompt.length - 1 ∧ (n = 0 ∨ ∃ path ∈ paths, prompt.take n <+: path)}
      (s.matchPrompt prompt) := by
  have hhas {n : ℕ} (hn : n ≤ prompt.length - 1) :
      n ≤ s.matchPrompt prompt ↔ n = 0 ∨ ∃ path ∈ paths, prompt.take n <+: path := by
    have htake : (prompt.take (prompt.length - 1)).take n = prompt.take n := by
      rw [List.take_take,Nat.min_eq_left hn]
    have hnil : prompt.take n = [] ↔ n = 0 := by
      rw [List.take_eq_nil_iff,← List.length_eq_zero_iff]
      omega
    unfold matchPrompt
    rw [← Trie.has_take_iff (by simp [hn]),htake,h.has_iff,hnil]
  have hle : s.matchPrompt prompt ≤ prompt.length - 1 :=
    (s.root.depth_le _).trans (List.length_take_le _ _)
  exact ⟨⟨hle,(hhas hle).mp le_rfl⟩,fun n hn => (hhas hn.1).mpr hn.2⟩

/-! ## Two requests with one prompt -/

def sampleRequest (requestId : String) (predecessorRequestIds : List String) (observedCacheHitTokens : ℤ) :
    RequestArguments where
  requestId := requestId
  workflowId := "flow"
  invocationId := "invocation-" ++ requestId
  contextId := "context-" ++ requestId
  contextEpoch := 0
  predecessorRequestIds := predecessorRequestIds
  releaseDelayMs := 0
  uncachedPromptTokens := 4 - observedCacheHitTokens
  outputTokens := 3
  startupBytes := 9
  kvGrowthBytes := 6
  observedCacheHitTokens := observedCacheHitTokens
  promptTokenSymbols := [10,20,30,40]
  cacheCommitTokenSymbols := [10,20,30,40,50,60]
  partialCacheCommitTokenSymbols := [[10,20,30,40]]

def firstRequest : FrozenRequestDemand := ⟨sampleRequest "first" [] 0,by decide +kernel,rfl⟩

def secondRequest : FrozenRequestDemand := ⟨sampleRequest "second" ["first"] 3,by decide +kernel,rfl⟩

def sampleWorkload : FrozenCounterfactualWorkload where
  traceId := "trace"
  transitionHash := "hash"
  traceSensitivity := "schedule_invariant"
  requests := [firstRequest,secondRequest]
  workflows := [⟨⟨"flow",1,["second"],2⟩,by decide +kernel,rfl⟩]
  prefixIdentityComplete := true
  accepted := by decide +kernel
  ordered := rfl

def sampleReplay : TokenRadixReplay := { root := .grow .empty [10,20,70], uniqueTokens := 3 }

def sampleResult : TokenRadixReplayResult where
  requestDemands := [⟨"first",2,0,4,4,0,7⟩,⟨"second",3,3,3,0,3,7⟩]
  completionOrder := ["first","second"]
  finalUniqueCacheTokens := 7
  observedHitMatchCount := 1
  observedHitMismatchCount := 1
  initialStateKnown := true
  concurrentPartialCommitsModeled := true

theorem sampleReplay_run : sampleReplay.replayCompletionOrder sampleWorkload ["first","second"] (some true) true =
    ((sampleReplay.replayCompletionOrder sampleWorkload ["first","second"] (some true) true).1,.ok sampleResult) :=
  Prod.ext rfl (by rfl)

theorem sampleReplay_reached : Reached sampleReplay [[10,20,70]] := .new (by rfl)

/-- The hit of a request is the longest part of its prompt, without the last token, that a path has which was in the
cache at first or came from a request before it. -/
theorem hit_longest (h : Reached s paths) (hcall : s.replayCompletionOrder w order known partials = (t,.ok result))
    {before after : List String} {r : FrozenRequestDemand} (hr : r ∈ w.requests)
    (horder : order = before ++ r.requestId :: after) :
    ∃ d ∈ result.requestDemands, d.requestId = r.requestId ∧
      IsGreatest {n | n ≤ r.promptTokenSymbols.length - 1 ∧ (n = 0 ∨
        (∃ path ∈ paths, r.promptTokenSymbols.take n <+: path) ∨
        ∃ r' ∈ w.requests, r'.requestId ∈ before ∧ r.promptTokenSymbols.take n <+: r'.cacheCommitTokenSymbols)}
        d.cacheHitTokens := by
  obtain ⟨rs,hreplayed⟩ := replayed hcall
  have hids := hreplayed.ids
  rw [horder] at hids
  obtain ⟨done,rest,rfl,rfl,hrest⟩ := List.map_eq_append_iff.mp hids
  obtain ⟨r',later,rfl,hsame,rfl⟩ := List.map_eq_cons_iff.mp hrest
  obtain rfl := eq_of_requestId (hreplayed.mem (List.mem_append_right done List.mem_cons_self)) hr hsame
  have hcached := h.caches.completions done
  refine ⟨(s.completions done).demand r',?_,rfl,?_⟩
  · rw [hreplayed.demands,demands_append,demands]
    exact List.mem_append_right _ List.mem_cons_self
  · have hgreatest := hcached.matchPrompt_greatest r'.promptTokenSymbols
    change IsGreatest _ ((s.completions done).matchPrompt r'.promptTokenSymbols)
    convert hgreatest using 1
    ext n
    apply and_congr_right
    intro _
    apply or_congr_right
    simp only [List.mem_append,List.mem_map,or_and_right,exists_or]
    apply or_congr_right
    constructor
    · rintro ⟨q,hq,⟨q',hq',hid⟩,hbegins⟩
      obtain rfl := eq_of_requestId (hreplayed.mem (List.mem_append_left _ hq')) hq hid
      exact ⟨_,⟨q',hq',rfl⟩,hbegins⟩
    · rintro ⟨path,⟨q,hq,rfl⟩,hbegins⟩
      exact ⟨q,hreplayed.mem (List.mem_append_left _ hq),⟨q,hq,rfl⟩,hbegins⟩

/-- The path of the other request is hit up to the last token of the prompt. -/
theorem hit_longest_sample : ∃ d ∈ sampleResult.requestDemands, d.requestId = "second" ∧
    IsGreatest {n | n ≤ 3 ∧ (n = 0 ∨ (∃ path ∈ [[10,20,70]], secondRequest.promptTokenSymbols.take n <+: path) ∨
      ∃ r' ∈ sampleWorkload.requests, r'.requestId ∈ ["first"] ∧
        secondRequest.promptTokenSymbols.take n <+: r'.cacheCommitTokenSymbols)}
      d.cacheHitTokens :=
  have hmem : secondRequest ∈ sampleWorkload.requests := List.mem_cons_of_mem _ List.mem_cons_self
  have horder : ["first","second"] = ["first"] ++ secondRequest.requestId :: [] := rfl
  hit_longest sampleReplay_reached sampleReplay_run hmem horder

theorem sum_growth (s : TokenRadixReplay) (rs : List FrozenRequestDemand) :
    s.uniqueTokens + ((s.demands rs).map (·.uniqueCommitGrowthTokens)).sum = (s.completions rs).uniqueTokens := by
  induction rs generalizing s with
  | nil => rfl
  | cons r rs ih =>
    rw [demands,List.map_cons,List.sum_cons,← Nat.add_assoc]
    exact ih (s.grown r.cacheCommitTokenSymbols)

/-- What is in the cache after a replay, and how much all requests together have added to it, does not depend on the
order of the completions. -/
theorem final_tokens (h : Reached s paths) (hcall : s.replayCompletionOrder w order known partials = (t,.ok result)) :
    result.finalUniqueCacheTokens = (Prefixes.union (paths ++ w.requests.map (·.cacheCommitTokenSymbols))).card ∧
    (result.requestDemands.map (·.uniqueCommitGrowthTokens)).sum =
      (Prefixes.union (paths ++ w.requests.map (·.cacheCommitTokenSymbols))).card - (Prefixes.union paths).card := by
  obtain ⟨rs,hreplayed⟩ := replayed hcall
  have hstart := h.caches.counted
  have hend := (hreplayed.caches h.caches).counted
  have hsum := sum_growth s rs
  rw [← hreplayed.demands,← hreplayed.state.counted] at hsum
  constructor
  · rw [hreplayed.final,hend]
  · omega

theorem final_tokens_sample : 7 =
      (Prefixes.union ([[10,20,70]] ++ sampleWorkload.requests.map (·.cacheCommitTokenSymbols))).card ∧
    (sampleResult.requestDemands.map (·.uniqueCommitGrowthTokens)).sum =
      (Prefixes.union ([[10,20,70]] ++ sampleWorkload.requests.map (·.cacheCommitTokenSymbols))).card -
        (Prefixes.union [[10,20,70]]).card :=
  final_tokens sampleReplay_reached sampleReplay_run

/-- A prompt and the path that is committed after it agree, so that what is hit of the one is in the cache for the
other. -/
theorem min_hit_le_depth {r : FrozenRequestDemand} (hr : r ∈ w.requests) (hcomplete : w.prefixIdentityComplete = true)
    (s : TokenRadixReplay) : min (s.matchPrompt r.promptTokenSymbols) r.cacheCommitTokenSymbols.length ≤
      s.root.depth r.cacheCommitTokenSymbols := by
  have hrequest := w.consistent.requests_ok r hr
  unfold WorkloadArguments.checkRequest at hrequest
  obtain ⟨_,-,hrequest⟩ := bind_eq_ok.mp hrequest
  obtain ⟨_,-,hrequest⟩ := bind_eq_ok.mp hrequest
  obtain ⟨hprompt,hcommit⟩ := ensure_eq_ok.mp hrequest hcomplete
  have hpaths := r.checkPaths
  unfold RequestArguments.checkPaths at hpaths
  obtain ⟨_,-,hpaths⟩ := bind_eq_ok.mp hpaths
  obtain ⟨_,hextends,-⟩ := bind_eq_ok.mp hpaths
  have hshared := ensure_eq_ok.mp hextends ⟨hcommit,hprompt⟩
  have hhit : s.matchPrompt r.promptTokenSymbols ≤
      (r.promptTokenSymbols.take (r.promptTokenSymbols.length - 1)).length := s.root.depth_le _
  have hlength := hhit
  rw [List.length_take] at hlength
  generalize hm : min (s.matchPrompt r.promptTokenSymbols) r.cacheCommitTokenSymbols.length = m
  have hagree : r.cacheCommitTokenSymbols.take m =
      (r.promptTokenSymbols.take (r.promptTokenSymbols.length - 1)).take m := by
    have htake := congrArg (List.take m) hshared
    rw [List.take_take,List.take_take] at htake
    rw [List.take_take,show min m (r.promptTokenSymbols.length - 1) = m by omega]
    have hmin : min m r.shared = m := by
      unfold RequestArguments.shared
      omega
    rwa [hmin] at htake
  rw [← Trie.has_take_iff (by omega),hagree,Trie.has_take_iff (by omega)]
  exact hm ▸ min_le_left _ _

theorem mem_demands {d : RequestRadixDemand} (h : d ∈ s.demands rs) :
    ∃ u : TokenRadixReplay, ∃ r ∈ rs, d = u.demand r := by
  induction rs generalizing s with
  | nil => exact absurd h List.not_mem_nil
  | cons r rs ih =>
    obtain rfl | h := List.mem_cons.mp h
    · exact ⟨s,r,List.mem_cons_self,rfl⟩
    · obtain ⟨u,r',hr',hd⟩ := ih h
      exact ⟨u,r',List.mem_cons_of_mem r hr',hd⟩

/-- Each token of a path that is committed is counted once: as part of the hit, as new, or as a duplicate. Each request
counts once, as one whose hit is the one that was observed or as one whose hit is not. -/
theorem tokens_accounted (hcall : s.replayCompletionOrder w order known partials = (t,.ok result)) :
    (∀ d ∈ result.requestDemands, ∃ r ∈ w.requests, r.requestId = d.requestId ∧
      min d.cacheHitTokens r.cacheCommitTokenSymbols.length + d.uniqueCommitGrowthTokens + d.duplicateCommitTokens =
        r.cacheCommitTokenSymbols.length) ∧
    result.observedHitMatchCount =
      result.requestDemands.countP (fun d => (d.cacheHitTokens : ℤ) = d.observedCacheHitTokens) ∧
    result.observedHitMismatchCount =
      result.requestDemands.countP fun d => (d.cacheHitTokens : ℤ) ≠ d.observedCacheHitTokens := by
  obtain ⟨rs,hreplayed⟩ := replayed hcall
  refine ⟨fun d hd => ?_,?_,?_⟩
  · rw [hreplayed.demands] at hd
    obtain ⟨u,r,hr,rfl⟩ := mem_demands hd
    have hmem := hreplayed.mem hr
    refine ⟨r,hmem,rfl,?_⟩
    have hmin := min_hit_le_depth hmem hreplayed.complete u
    have hle := u.root.depth_le r.cacheCommitTokenSymbols
    simp only [demand,demandOf,missing]
    omega
  · rw [hreplayed.demands]
    exact hreplayed.hits
  · rw [hreplayed.demands,hreplayed.misses]
    have hcount := (s.demands rs).length_eq_countP_add_countP fun d => decide (Matches d)
    have hnot : (s.demands rs).countP (fun d => decide ((d.cacheHitTokens : ℤ) ≠ d.observedCacheHitTokens)) =
        (s.demands rs).countP fun d => decide ¬ decide (Matches d) = true :=
      List.countP_congr fun d _ => by
        rw [decide_eq_true_eq,decide_eq_true_eq,decide_eq_true_eq]
        rfl
    omega

theorem tokens_accounted_sample :
    (∀ d ∈ sampleResult.requestDemands, ∃ r ∈ sampleWorkload.requests, r.requestId = d.requestId ∧
      min d.cacheHitTokens r.cacheCommitTokenSymbols.length + d.uniqueCommitGrowthTokens + d.duplicateCommitTokens =
        r.cacheCommitTokenSymbols.length) ∧
    sampleResult.observedHitMatchCount =
      sampleResult.requestDemands.countP (fun d => (d.cacheHitTokens : ℤ) = d.observedCacheHitTokens) ∧
    sampleResult.observedHitMismatchCount =
      sampleResult.requestDemands.countP fun d => (d.cacheHitTokens : ℤ) ≠ d.observedCacheHitTokens :=
  tokens_accounted sampleReplay_run

end Results
end TokenRadixReplay
end BeliefKV.FrozenWorkload
