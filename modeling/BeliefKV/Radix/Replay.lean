import BeliefKV.Frozen.Records
import BeliefKV.Lib.Call
import BeliefKV.Lib.Trie

/-! The replay of a frozen workload over the token prefixes of a cache, in an order in which its requests complete. -/
namespace BeliefKV.FrozenWorkload
open Call

inductive ReplayRaised
  | tokenRadixReplayError (text : String)
  | keyError (text : String)
  deriving DecidableEq

structure RequestRadixDemand where
  requestId : String
  cacheHitTokens : ℕ
  observedCacheHitTokens : ℤ
  allocatorGrowthTokens : ℤ
  uniqueCommitGrowthTokens : ℕ
  duplicateCommitTokens : ℤ
  cacheTokensAfter : ℕ
  deriving DecidableEq

structure TokenRadixReplayResult where
  requestDemands : List RequestRadixDemand
  completionOrder : List String
  finalUniqueCacheTokens : ℕ
  observedHitMatchCount : ℕ
  observedHitMismatchCount : ℤ
  initialStateKnown : Bool
  concurrentPartialCommitsModeled : Bool

structure TokenRadixReplay where
  root : Trie ℤ := .empty
  uniqueTokens : ℕ := 0

namespace TokenRadixReplay
section Operations
variable (s : TokenRadixReplay)

/-- The last token of a prompt is always a miss. -/
def matchPrompt (prompt : List ℤ) : ℕ := s.root.depth (prompt.take (prompt.length - 1))

/-- The nodes before a symbol that is turned down stay. -/
def insertBelow : Trie ℤ → List ℤ → Trie ℤ × Except ReplayRaised ℕ
  | node, [] => (node,.ok 0)
  | node, symbol :: path =>
    if symbol < 0 ∨ 2 ^ 64 ≤ symbol then
      (node,.error (.tokenRadixReplayError "token symbols must be unsigned 64-bit integers"))
    else
      match node.get? symbol with
      | some child =>
        let below := insertBelow child path
        (node.set symbol below.1,below.2)
      | none =>
        let below := insertBelow .empty path
        (node.set symbol below.1,below.2.map (· + 1))

/-- A path that is turned down is not counted, not even the nodes that stay. -/
def insertPath (path : List ℤ) : TokenRadixReplay × Except ReplayRaised ℕ :=
  match insertBelow s.root path with
  | (root,.error e) => ({ s with root := root },.error e)
  | (root,.ok inserted) => ({ root := root, uniqueTokens := s.uniqueTokens + inserted },.ok inserted)

def insertPaths : TokenRadixReplay → List (List ℤ) → TokenRadixReplay × Except ReplayRaised ℕ
  | s, [] => (s,.ok 0)
  | s, path :: paths =>
    andThen (s.insertPath path) fun s inserted =>
    andThen (s.insertPaths paths) fun s more => (s,.ok (inserted + more))

def new (initialPaths : List (List ℤ)) : Except ReplayRaised TokenRadixReplay :=
  match insertPaths {} initialPaths with
  | (_,.error e) => .error e
  | (s,.ok _) => .ok s

/-- What the loop over the completions has gathered. -/
structure Progress where
  completed : List String := []
  demands : List RequestRadixDemand := []
  hitMatches : ℕ := 0

def commitPaths (modelPartialCommits : Bool) (request : FrozenRequestDemand) : List (List ℤ) :=
  (if modelPartialCommits then request.partialCacheCommitTokenSymbols else []) ++ [request.cacheCommitTokenSymbols]

def demandOf (request : FrozenRequestDemand) (hit uniqueGrowth cacheTokensAfter : ℕ) : RequestRadixDemand where
  requestId := request.requestId
  cacheHitTokens := hit
  observedCacheHitTokens := request.observedCacheHitTokens
  allocatorGrowthTokens := request.promptTokenSymbols.length - hit + max 0 (request.outputTokens - 1)
  uniqueCommitGrowthTokens := uniqueGrowth
  duplicateCommitTokens := max 0 (request.cacheCommitTokenSymbols.length - hit - uniqueGrowth)
  cacheTokensAfter := cacheTokensAfter

/-- One round of the loop over the completions. -/
def replayRequest (modelPartialCommits : Bool) (progress : Progress) (request : FrozenRequestDemand) :
    TokenRadixReplay × Except ReplayRaised Progress :=
  if ∃ p ∈ request.predecessorRequestIds, p ∉ progress.completed then
    (s,.error (.tokenRadixReplayError ("completion order violates request dependencies: " ++ request.requestId)))
  else
    let hit := s.matchPrompt request.promptTokenSymbols
    andThen (s.insertPaths (commitPaths modelPartialCommits request)) fun s uniqueGrowth =>
    (s,.ok
      { completed := progress.completed ++ [request.requestId]
        demands := progress.demands ++ [demandOf request hit uniqueGrowth s.uniqueTokens]
        hitMatches := progress.hitMatches + if (hit : ℤ) = request.observedCacheHitTokens then 1 else 0 })

def replayRequests (requests : List FrozenRequestDemand) (modelPartialCommits : Bool) :
    TokenRadixReplay → Progress → List String → TokenRadixReplay × Except ReplayRaised Progress
  | s, progress, [] => (s,.ok progress)
  | s, progress, requestId :: order =>
    match requests.find? (·.requestId = requestId) with
    | none => (s,.error (.keyError requestId))
    | some request =>
      andThen (s.replayRequest modelPartialCommits progress request) fun s progress =>
      replayRequests requests modelPartialCommits s progress order

def replayCompletionOrder (workload : FrozenCounterfactualWorkload) (completionOrder : List String)
    (initialStateKnown : Option Bool) (modelPartialCommits : Bool) :
    TokenRadixReplay × Except ReplayRaised TokenRadixReplayResult :=
  if workload.prefixIdentityComplete = false then
    (s,.error (.tokenRadixReplayError "frozen workload lacks complete request prefix identity"))
  else if ¬ completionOrder.Nodup ∨ completionOrder.toFinset ≠ workload.requestIds.toFinset then
    (s,.error (.tokenRadixReplayError "completion order must contain every request exactly once"))
  else
    andThen (replayRequests workload.requests modelPartialCommits s {} completionOrder) fun s progress =>
    (s,.ok
      { requestDemands := progress.demands
        completionOrder := completionOrder
        finalUniqueCacheTokens := s.uniqueTokens
        observedHitMatchCount := progress.hitMatches
        observedHitMismatchCount := completionOrder.length - progress.hitMatches
        initialStateKnown := initialStateKnown.getD workload.initialRadixStateKnown
        concurrentPartialCommitsModeled := modelPartialCommits })

end Operations

/-! ## The paths in the cache -/

section Paths
variable {s : TokenRadixReplay} {paths : List (List ℤ)} {path : List ℤ}

theorem insertBelow_eq (hpath : RequestArguments.Unsigned path) (node : Trie ℤ) :
    insertBelow node path = (node.grow path,.ok (path.length - node.depth path)) := by
  induction path generalizing node with
  | nil => rfl
  | cons symbol path ih =>
    have hsymbol : ¬ (symbol < 0 ∨ 2 ^ 64 ≤ symbol) := by
      have := hpath symbol List.mem_cons_self
      omega
    have hrest : RequestArguments.Unsigned path := fun x hx => hpath x (List.mem_cons_of_mem symbol hx)
    rw [insertBelow,if_neg hsymbol,Trie.grow,Trie.depth]
    cases node.get? symbol with
    | none =>
      simp only [ih hrest,Option.getD_none,Trie.depth_empty,Except.map]
      rfl
    | some child => simp [ih hrest]

/-- How many tokens of a path are not in the cache. -/
def missing (s : TokenRadixReplay) (path : List ℤ) : ℕ := path.length - s.root.depth path

/-- The cache with a path. -/
def grown (s : TokenRadixReplay) (path : List ℤ) : TokenRadixReplay where
  root := s.root.grow path
  uniqueTokens := s.uniqueTokens + s.missing path

theorem insertPath_eq (hpath : RequestArguments.Unsigned path) :
    s.insertPath path = (s.grown path,.ok (s.missing path)) := by
  unfold insertPath
  rw [insertBelow_eq hpath]
  rfl

theorem le_foldl_grown (s : TokenRadixReplay) (paths : List (List ℤ)) :
    s.uniqueTokens ≤ (paths.foldl grown s).uniqueTokens := by
  induction paths generalizing s with
  | nil => exact Nat.le_refl _
  | cons path paths ih => exact (Nat.le_add_right _ _).trans (ih (s.grown path))

theorem insertPaths_eq (hpaths : ∀ path ∈ paths, RequestArguments.Unsigned path) : s.insertPaths paths =
    (paths.foldl grown s,.ok ((paths.foldl grown s).uniqueTokens - s.uniqueTokens)) := by
  induction paths generalizing s with
  | nil => simp [insertPaths]
  | cons path paths ih =>
    have hrest := ih (s := s.grown path) fun p hp => hpaths p (List.mem_cons_of_mem path hp)
    have hle := le_foldl_grown (s.grown path) paths
    have hgrown : (s.grown path).uniqueTokens = s.uniqueTokens + s.missing path := rfl
    rw [insertPaths,insertPath_eq (hpaths path List.mem_cons_self),andThen_ok,hrest,andThen_ok,List.foldl_cons]
    congr 2
    omega

/-- The two caches have the same paths and the same count. -/
structure Same (s s' : TokenRadixReplay) : Prop where
  has : ∀ q, s.root.Has q ↔ s'.root.Has q
  counted : s.uniqueTokens = s'.uniqueTokens

theorem Same.refl (s : TokenRadixReplay) : Same s s := ⟨fun _ => Iff.rfl,rfl⟩

theorem Same.trans {s t u : TokenRadixReplay} (h : Same s t) (h' : Same t u) : Same s u :=
  ⟨fun q => (h.has q).trans (h'.has q),h.counted.trans h'.counted⟩

theorem Same.symm {s t : TokenRadixReplay} (h : Same s t) : Same t s := ⟨fun q => (h.has q).symm,h.counted.symm⟩

theorem Same.missing {s t : TokenRadixReplay} (h : Same s t) (path : List ℤ) : s.missing path = t.missing path := by
  unfold TokenRadixReplay.missing
  rw [Trie.depth_congr h.has]

theorem Same.grown {s t : TokenRadixReplay} (h : Same s t) (path : List ℤ) : Same (s.grown path) (t.grown path) := by
  constructor
  · intro q
    simp only [TokenRadixReplay.grown,Trie.has_grow,h.has]
  · simp only [TokenRadixReplay.grown,h.counted,h.missing]

/-- A path that comes before one that it begins makes no difference. -/
theorem grown_prefix_eq {p : List ℤ} (hp : p <+: path) : Same ((s.grown p).grown path) (s.grown path) := by
  constructor
  · intro q
    simp only [grown,Trie.has_grow,or_assoc]
    exact or_congr_right ⟨fun h => h.elim (·.trans hp) id,.inr⟩
  · have hle := hp.length_le
    have hdepth := s.root.depth_le path
    simp only [grown,missing,Trie.depth_prefix_eq hp,Trie.depth_grow_prefix_eq hp]
    omega

theorem foldl_grown_prefixes (hpaths : ∀ p ∈ paths, p <+: path) :
    Same ((paths.foldl grown s).grown path) (s.grown path) := by
  induction paths generalizing s with
  | nil => exact .refl _
  | cons p paths ih =>
    have hrest := ih (s := s.grown p) fun q hq => hpaths q (List.mem_cons_of_mem p hq)
    exact hrest.trans (grown_prefix_eq (hpaths p List.mem_cons_self))

end Paths

/-! ## One request -/

section Requests
variable {s t : TokenRadixReplay} {progress : Progress} {request : FrozenRequestDemand} {partials : Bool}

/-- What its check says of the partial paths of a request. -/
theorem partial_prefix_commit (hcommit : request.cacheCommitTokenSymbols ≠ []) :
    ∀ p ∈ request.partialCacheCommitTokenSymbols, p <+: request.cacheCommitTokenSymbols := by
  have h := request.checkPaths
  unfold RequestArguments.checkPaths at h
  obtain ⟨_,-,h⟩ := bind_eq_ok.mp h
  obtain ⟨_,-,h⟩ := bind_eq_ok.mp h
  intro p hp
  rw [← ensure_eq_ok.mp h p hp hcommit]
  exact List.take_prefix _ _

theorem same_grown (partials : Bool) (hcommit : request.cacheCommitTokenSymbols ≠ []) :
    Same ((commitPaths partials request).foldl grown s) (s.grown request.cacheCommitTokenSymbols) := by
  unfold commitPaths
  rw [List.foldl_append]
  cases partials with
  | false => exact .refl _
  | true => exact foldl_grown_prefixes (partial_prefix_commit hcommit)

theorem commitPaths_unsigned : ∀ path ∈ commitPaths partials request, RequestArguments.Unsigned path := by
  intro path hpath
  apply request.unsigned
  rw [commitPaths,List.mem_append,List.mem_singleton] at hpath
  obtain hpath | rfl := hpath
  · cases partials with
    | false => exact absurd hpath List.not_mem_nil
    | true => exact List.mem_cons_of_mem _ (List.mem_cons_of_mem _ hpath)
  · exact List.mem_cons_of_mem _ List.mem_cons_self

/-- What a request asks of a cache when it completes. -/
def demand (s : TokenRadixReplay) (request : FrozenRequestDemand) : RequestRadixDemand :=
  demandOf request (s.matchPrompt request.promptTokenSymbols) (s.missing request.cacheCommitTokenSymbols)
    (s.grown request.cacheCommitTokenSymbols).uniqueTokens

def Matches (d : RequestRadixDemand) : Prop := (d.cacheHitTokens : ℤ) = d.observedCacheHitTokens

instance : DecidablePred Matches := fun _ => inferInstanceAs (Decidable (_ = _))

def Progress.add (progress : Progress) (d : RequestRadixDemand) : Progress where
  completed := progress.completed ++ [d.requestId]
  demands := progress.demands ++ [d]
  hitMatches := progress.hitMatches + if Matches d then 1 else 0

theorem Same.demand (h : Same s t) (request : FrozenRequestDemand) : s.demand request = t.demand request := by
  unfold TokenRadixReplay.demand matchPrompt
  rw [h.missing,(h.grown _).counted,Trie.depth_congr h.has]

theorem replayRequest_of_waits {p : String} (hp : p ∈ request.predecessorRequestIds)
    (hwaits : p ∉ progress.completed) :
    s.replayRequest partials progress request =
      (s,.error (.tokenRadixReplayError ("completion order violates request dependencies: " ++ request.requestId))) :=
  if_pos ⟨p,hp,hwaits⟩

/-- The partial paths of a request make no difference to its demand. -/
theorem replayRequest_of_free (hcommit : request.cacheCommitTokenSymbols ≠ [])
    (hfree : ∀ p ∈ request.predecessorRequestIds, p ∈ progress.completed) :
    s.replayRequest partials progress request =
      ((commitPaths partials request).foldl grown s,.ok (progress.add (s.demand request))) := by
  have hsame := same_grown (s := s) partials hcommit
  have hgrowth : ((commitPaths partials request).foldl grown s).uniqueTokens - s.uniqueTokens =
      s.missing request.cacheCommitTokenSymbols := by
    rw [hsame.counted]
    exact Nat.add_sub_cancel_left _ _
  unfold replayRequest
  rw [if_neg (by simpa using hfree)]
  dsimp only
  rw [insertPaths_eq commitPaths_unsigned,andThen_ok,hgrowth,hsame.counted]
  rfl

end Requests

/-! ## A whole order -/

section Orders
variable {requests rs : List FrozenRequestDemand} {partials : Bool} {s t : TokenRadixReplay}
  {progress progress' : Progress} {order completed : List String}

/-- Each request comes after those that it waits for. -/
def Follows (requests : List FrozenRequestDemand) : List String → List FrozenRequestDemand → Prop
  | _, [] => True
  | completed, r :: rs =>
    (r ∈ requests ∧ ∀ p ∈ r.predecessorRequestIds, p ∈ completed) ∧ Follows requests (completed ++ [r.requestId]) rs

theorem follows_iff : Follows requests completed rs ↔ ∀ before r after, rs = before ++ r :: after →
    r ∈ requests ∧ ∀ p ∈ r.predecessorRequestIds, p ∈ completed ++ before.map (·.requestId) := by
  induction rs generalizing completed with
  | nil => simp [Follows]
  | cons r rs ih =>
    rw [Follows,ih]
    constructor
    · rintro ⟨hfirst,hrest⟩ before r' after h
      cases before with
      | nil =>
        cases h
        simpa using hfirst
      | cons b before =>
        cases h
        simpa using hrest before r' after rfl
    · intro h
      refine ⟨by simpa using h [] r rs rfl,fun before r' after hrs => ?_⟩
      simpa using h (r :: before) r' after (by rw [hrs]; rfl)

/-- The demands of some requests, one after the other. -/
def demands : TokenRadixReplay → List FrozenRequestDemand → List RequestRadixDemand
  | _, [] => []
  | s, r :: rs => s.demand r :: demands (s.grown r.cacheCommitTokenSymbols) rs

def completions (s : TokenRadixReplay) (rs : List FrozenRequestDemand) : TokenRadixReplay :=
  (rs.map (·.cacheCommitTokenSymbols)).foldl grown s

theorem Same.demands (h : Same s t) (rs : List FrozenRequestDemand) : s.demands rs = t.demands rs := by
  induction rs generalizing s t with
  | nil => rfl
  | cons r rs ih => rw [TokenRadixReplay.demands,TokenRadixReplay.demands,h.demand,ih (h.grown _)]

theorem Same.completions (h : Same s t) (rs : List FrozenRequestDemand) :
    Same (s.completions rs) (t.completions rs) := by
  induction rs generalizing s t with
  | nil => exact h
  | cons r rs ih => exact ih (h.grown _)

theorem demands_append (before after : List FrozenRequestDemand) :
    s.demands (before ++ after) = s.demands before ++ (s.completions before).demands after := by
  induction before generalizing s with
  | nil => rfl
  | cons r before ih =>
    rw [List.cons_append,demands,demands,ih,List.cons_append]
    rfl

section Complete
variable (hcommits : ∀ r ∈ requests, r.cacheCommitTokenSymbols ≠ [])
include hcommits

/-- The replay of an order does not depend on the partial paths, however it ends. -/
theorem replayRequests_same (hsame : Same s t) (partials partials' : Bool) (progress : Progress)
    (order : List String) :
    Same (replayRequests requests partials s progress order).1
        (replayRequests requests partials' t progress order).1 ∧
      (replayRequests requests partials s progress order).2 =
        (replayRequests requests partials' t progress order).2 := by
  induction order generalizing s t progress with
  | nil => exact ⟨hsame,rfl⟩
  | cons id order ih =>
    rw [replayRequests,replayRequests]
    cases hfind : requests.find? (·.requestId = id) with
    | none => exact ⟨hsame,rfl⟩
    | some r =>
      have hcommit := hcommits r (List.mem_of_find?_eq_some hfind)
      dsimp only
      by_cases hfree : ∀ p ∈ r.predecessorRequestIds, p ∈ progress.completed
      · rw [replayRequest_of_free hcommit hfree,replayRequest_of_free hcommit hfree,hsame.demand,andThen_ok,andThen_ok]
        apply ih
        exact (same_grown partials hcommit).trans ((hsame.grown _).trans (same_grown partials' hcommit).symm)
      · push Not at hfree
        obtain ⟨p,hp,hwaits⟩ := hfree
        rw [replayRequest_of_waits hp hwaits,replayRequest_of_waits hp hwaits]
        exact ⟨hsame,rfl⟩

/-- What a replay that returns has done. -/
theorem replayRequests_ok (hok : (replayRequests requests partials s progress order).2 = .ok progress') :
    ∃ rs, rs.map (·.requestId) = order ∧ Follows requests progress.completed rs ∧
      Same (replayRequests requests partials s progress order).1 (s.completions rs) ∧
      progress' = (s.demands rs).foldl Progress.add progress := by
  induction order generalizing s progress with
  | nil =>
    obtain rfl : progress = progress' := Except.ok.inj hok
    exact ⟨[],rfl,trivial,.refl s,rfl⟩
  | cons id order ih =>
    rw [replayRequests] at hok ⊢
    cases hfind : requests.find? (·.requestId = id) with
    | none =>
      rw [hfind] at hok
      cases hok
    | some r =>
      rw [hfind] at hok
      have hmem := List.mem_of_find?_eq_some hfind
      obtain rfl : r.requestId = id := by simpa using List.find?_some hfind
      have hcommit := hcommits r hmem
      dsimp only at hok ⊢
      by_cases hfree : ∀ p ∈ r.predecessorRequestIds, p ∈ progress.completed
      · rw [replayRequest_of_free hcommit hfree,andThen_ok] at hok ⊢
        obtain ⟨rs,rfl,hfollows,hstate,hprogress⟩ := ih hok
        have hsame := same_grown (s := s) partials hcommit
        refine ⟨r :: rs,rfl,⟨⟨hmem,hfree⟩,hfollows⟩,hstate.trans (hsame.completions rs),?_⟩
        rw [hprogress,hsame.demands]
        rfl
      · push Not at hfree
        obtain ⟨p,hp,hwaits⟩ := hfree
        rw [replayRequest_of_waits hp hwaits] at hok
        cases hok

theorem replayRequests_of_follows (hids : (requests.map (·.requestId)).Nodup)
    (hfollows : Follows requests progress.completed rs) :
    ∃ progress', (replayRequests requests partials s progress (rs.map (·.requestId))).2 = .ok progress' := by
  induction rs generalizing s progress with
  | nil => exact ⟨progress,rfl⟩
  | cons r rs ih =>
    obtain ⟨⟨hmem,hfree⟩,hrest⟩ := hfollows
    have hfind : requests.find? (·.requestId = r.requestId) = some r := (find?_eq_some_iff hids).mpr ⟨hmem,rfl⟩
    rw [List.map_cons,replayRequests,hfind]
    dsimp only
    rw [replayRequest_of_free (hcommits r hmem) hfree,andThen_ok]
    exact ih hrest

end Complete
end Orders
end TokenRadixReplay
end BeliefKV.FrozenWorkload
