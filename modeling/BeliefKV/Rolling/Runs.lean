import BeliefKV.Rolling.Reservation

/-! The calls on the allocator, and its runs. -/
namespace BeliefKV

namespace TieredTokenRadix
open Call
variable {s t : TieredTokenRadix}

/-! ## Matches and estimates -/

theorem matchPrompt_fine (hs : s.Sound) (prompt : List ℤ) (touch : Bool) : Fine s (s.matchPrompt prompt touch) := by
  refine .check hs (fun e he => validatePath_error he) fun path _ => ?_
  split_ifs
  · exact .ok ((SameCore.touchNodes s _).sound hs) _
  · exact .ok hs _

theorem matchPrompt_look {prompt : List ℤ} {m : TieredRadixMatch} (h : s.matchPrompt prompt false = (t,.ok m)) :
    t = s ∧ m = s.matchTokens prompt := by
  obtain ⟨path,hpath,h⟩ := andThen_eq_ok.mp h
  obtain rfl := validatePath_eq_ok hpath
  cases h
  exact ⟨rfl,rfl⟩

theorem matchPrompt_touch {prompt : List ℤ} {m : TieredRadixMatch} (h : s.matchPrompt prompt true = (t,.ok m)) :
    t = s.touchNodes (s.matchNodes prompt) := by
  obtain ⟨path,hpath,h⟩ := andThen_eq_ok.mp h
  obtain rfl := validatePath_eq_ok hpath
  cases h
  rfl

theorem SameCore.tokens {s t : TieredTokenRadix} (h : SameCore s t) : t.tokens = s.tokens :=
  congrArg Prod.snd h.counters

/-- What a lock has after it was taken. -/
theorem lockPrefix_get {requestId : String} {path : List ℤ} {count : ℕ}
    (h : s.lockPrefix requestId path count = (t,.ok ())) :
    t.requestLocks[requestId]? = some (t.existingPath 0 (path.take count)) ∧
      (t.existingPath 0 (path.take count)).length = count := by
  unfold lockPrefix at h
  split_ifs at h with hid hlock
  · cases h
  · cases h
  obtain ⟨p,hp,h⟩ := andThen_eq_ok.mp h
  obtain rfl := validatePath_eq_ok hp
  simp only at h
  split_ifs at h with hrange hnodes
  · cases h
  · cases h
  obtain ⟨ht,-⟩ := checked_eq_ok h
  obtain ⟨hindex,hnext,hlinks⟩ := SameLinks.editAll s (s.existingPath 0 (p.take (count : ℤ).toNat))
    (f := fun n => { n with lockedByRequestIds := insert requestId n.lockedByRequestIds }) fun _ => rfl
  have hsame : SameLinks s t := by
    rw [ht]
    exact ⟨hindex,hnext,hlinks⟩
  obtain ⟨hlength,-⟩ := not_or.mp hnodes
  rw [Int.toNat_natCast] at hlength
  rw [hsame.existingPath]
  refine ⟨?_,by exact_mod_cast not_not.mp hlength⟩
  rw [ht]
  change (s.requestLocks.insert requestId _)[requestId]? = _
  rw [Dict.get_insert,if_pos rfl,Int.toNat_natCast]

theorem estimatePath_le (path : List ℤ) : ∀ (e : Estimate) (v : ℤ), e.tokens ≤ (s.estimatePath e v path).tokens := by
  induction path with
  | nil => exact fun _ _ => le_rfl
  | cons x path ih =>
    intro e v
    rw [estimatePath]
    cases (if v < 0 then none else (s.heap v.toNat).children[x]?) with
    | some c =>
      refine le_trans ?_ (ih _ c)
      split_ifs
      · exact le_rfl
      · exact Nat.add_le_add_right (Finset.card_le_card (Finset.subset_insert c _)) _
    | none =>
      cases e.virtualEdges[(v,x)]? with
      | some w => exact ih e w
      | none =>
        have hmore : e.tokens ≤ (e.sprout v x).tokens := by
          refine Nat.add_le_add_left ?_ _
          change _ ≤ (e.virtualEdges.insert (v,x) e.nextVirtualId).size
          rw [Std.ExtTreeMap.size_insert]
          split_ifs
          · exact le_rfl
          · exact Nat.le_succ _
        exact hmore.trans (ih (e.sprout v x) e.nextVirtualId)

theorem estimatePaths_le (requestPaths : List (String × List ℤ)) : ∀ {e e' : Estimate},
    s.estimatePaths e requestPaths = .ok e' → e.tokens ≤ e'.tokens := by
  induction requestPaths with
  | nil =>
    intro e e' h
    cases h
    exact le_rfl
  | cons request rest ih =>
    intro e e' h
    rw [estimatePaths] at h
    cases hend : s.lockedPrefixEndpoint request.1 request.2 with
    | error raised =>
      rw [hend] at h
      cases h
    | ok endpoint =>
      rw [hend] at h
      exact (estimatePath_le _ e endpoint.1).trans (ih h)

end TieredTokenRadix

namespace RollingRadixAllocator
open Call TieredTokenRadix
variable {digest : List ℤ → String} {config : RollingConfig} {a b c : RollingRadixAllocator} {α β : Type}
  {done : Option String}

/-! ## Calls -/

theorem restore_good (ha : Accounted config a) {requestId : String} {prompt : List ℤ} {tokens needed : ℕ} {readyMs : ℚ}
    (hneed : a.radix.absent (a.radix.existingPath 0 (prompt.take tokens)) ≤ needed)
    (hroom : (needed : ℤ) * config.bytesPerToken ≤ a.hbmAvailableBytes config) :
    Good config done a (a.restore config requestId prompt tokens readyMs) fun _ _ => True := by
  unfold restore
  refine .mutate ha (restorePrefix_fine ha.sound _ _) fun t m hcall ht => ?_
  obtain ⟨hgpu,hcpu,htransfer⟩ := restorePrefix_tokens ha.sound.linked hcall
  have hmore : 0 ≤ (m.transferTokens : ℤ) * config.bytesPerToken := by positivity
  have hfit : (m.transferTokens : ℤ) * config.bytesPerToken ≤ needed * config.bytesPerToken := by
    rw [← htransfer] at hneed
    exact mul_le_mul_of_nonneg_right (by exact_mod_cast hneed) (Int.natCast_nonneg _)
  refine Good.andThen (ha.entry (b := { a with
      radix := t
      h2dBytes := a.h2dBytes + m.transferTokens * config.bytesPerToken
      pcieBusyMs := _ }) (restorePrefix_kept hcall) rfl rfl ht ?_ ?_ (add_zero _).symm rfl hmore
    (le_add_of_nonneg_right (transferMs_nonneg config _ config.h2d_pos)) _ _ _ m) fun c _ hc _ => .stay hc trivial
  · unfold hbmAvailableBytes hbmOccupiedBytes at hroom
    unfold hbmOccupiedBytes
    change _ + t.gpuTokens * _ ≤ _
    rw [hgpu,add_mul]
    omega
  · refine le_trans (le_of_eq ?_) ha.host
    exact congrArg (· * (config.bytesPerToken : ℤ)) hcpu

theorem Accounted.silent (ha : Accounted config a) {t : TieredTokenRadix} (ht : t.Sound) (htokens : t.tokens = a.radix.tokens)
    (hkept : Kept done a.radix t) {x : α} {Q : RollingRadixAllocator → α → Prop} (hq : Q { a with radix := t } x) :
    Good config done a ({ a with radix := t },.ok x) Q :=
  ⟨ha.quiet ht htokens,List.prefix_refl _,hkept,fun y hy => by cases hy; exact hq,nofun⟩

/-- What a call on the radix that moves no tokens comes to. -/
theorem Accounted.still (ha : Accounted config a) {call : TieredTokenRadix × Except RadixRaised α}
    (hfine : Fine a.radix call)
    (hcall : ∀ t x, call = (t,.ok x) → t.tokens = a.radix.tokens ∧ Kept done a.radix t) :
    Good config done a (a.onRadix call) fun b x => call = (b.radix,.ok x) := by
  obtain ⟨t,result⟩ := call
  cases result with
  | error e =>
    obtain ⟨rfl,-⟩ := hfine.raises e rfl
    refine .raise ha ?_
    simp [capacityErrors]
  | ok x =>
    obtain ⟨htokens,hkept⟩ := hcall t x rfl
    exact ha.silent hfine.sound htokens hkept rfl

theorem admit_good (done : Option String) (ha : Accounted config a) (requestId : String) (prompt : List ℤ) (nowMs : ℚ)
    (futureUses : List FutureRadixUse) :
    Good config done a (a.admitRequest digest config requestId prompt nowMs futureUses) fun b admission =>
      ∃ ids, b.radix.requestLocks[requestId]? = some ids ∧
        b.radix.existingPath 0 (prompt.take admission.matched.logicalHitTokens) = ids ∧
          ids.length = admission.matched.logicalHitTokens := by
  unfold admitRequest
  split_ifs
  · exact .raise ha (by decide)
  · exact .raise ha (by decide)
  refine .mutate ha (matchPrompt_fine ha.sound prompt false) fun t matched hcall _ => ?_
  obtain ⟨rfl,rfl⟩ := matchPrompt_look hcall
  refine (ensureCapacity_good ha _ nowMs requestId _ futureUses _).andThen fun b readyMs hb hready => ?_
  obtain ⟨hroom,hreserved⟩ := hready
  have hspared := hreserved.spares _ (List.mem_singleton_self _)
  have hneed : b.radix.absent (b.radix.existingPath 0 (prompt.take (a.radix.matchTokens prompt).logicalHitTokens)) ≤
      (a.radix.matchTokens prompt).restoreTokens := by
    rw [hspared.path,absent_congr hspared.gpu,ha.sound.matchNodes]
    exact absent_le _
  refine Good.andThen (Q := fun _ _ => True) ?_ fun b readyMs hb _ => ?_
  · split_ifs
    · exact restore_good hb hneed hroom
    · exact .stay hb trivial
  refine (hb.still (lockPrefix_fine hb.sound _ _ _) fun t x hcall => ⟨lockPrefix_tokens hcall,lockPrefix_kept hcall⟩).andThen
    fun b' _ hb' hlocked => ?_
  refine (hb'.still (matchPrompt_fine hb'.sound prompt true) fun t x hcall => ?_).andThen fun c _ hc htouched => ?_
  · have htouch := SameCore.touchNodes b'.radix (b'.radix.matchNodes prompt)
    rw [matchPrompt_touch hcall]
    exact ⟨htouch.tokens,htouch.kept⟩
  refine hc.check (fun e he => ?_) fun x _ => .stay hc ?_
  · rw [assertCapacity_ok hc] at he
    cases he
  · have htouch := SameCore.touchNodes b'.radix (b'.radix.matchNodes prompt)
    obtain ⟨hids,hlength⟩ := lockPrefix_get hlocked
    have hsame := htouch.existingPath (prompt.take (a.radix.matchTokens prompt).logicalHitTokens) 0
    rw [matchPrompt_touch htouched]
    refine ⟨_,htouch.requestLocks ▸ hids,hsame,hlength⟩

theorem materializeEach_good {s : TieredTokenRadix} (hs : s.Sound) {readyMs : ℚ} {reason : String}
    (requestPaths : List (String × List ℤ)) :
    ∀ {a : RollingRadixAllocator} {e e' : Estimate} {growth : Dict String ℤ}, Accounted config a → Foresees s e a.radix →
      s.estimatePaths e requestPaths = .ok e' →
      (∀ request ∈ requestPaths, a.radix.requestLocks[request.1]? = s.requestLocks[request.1]?) →
      (requestPaths.map Prod.fst).Nodup →
      config.hbmFixedBytes + (s.gpuTokens + e'.tokens) * config.bytesPerToken ≤ config.hbmCapacityBytes →
      Good config done a (materializeEach config readyMs reason a growth requestPaths) fun _ _ => True := by
  induction requestPaths with
  | nil => exact fun ha _ _ _ _ _ => .stay ha trivial
  | cons request rest ih =>
    intro a e e' growth ha hforesees hestimate hlocks hnodup hroom
    rw [estimatePaths] at hestimate
    cases hend : s.lockedPrefixEndpoint request.1 request.2 with
    | error raised =>
      rw [hend] at hestimate
      cases hestimate
    | ok endpoint =>
      rw [hend] at hestimate
      simp only at hestimate
      obtain ⟨hfresh,hnodup⟩ := List.nodup_cons.mp hnodup
      rw [materializeEach]
      refine .mutate ha (extendRequestGpu_fine ha.sound _ _ _) fun t m hcall ht => ?_
      obtain ⟨hgpu,hcpu⟩ := extendRequestGpu_tokens hcall
      obtain ⟨hnext,-,hother⟩ := hforesees.extend hs ha.sound (hlocks request List.mem_cons_self) hend hcall
      have hkept : Kept done a.radix t := extendRequestGpu_kept ha.sound hcall
      have hlocks' (r : String × List ℤ) (hr : r ∈ rest) : t.requestLocks[r.1]? = s.requestLocks[r.1]? := by
        have hne : r.1 ≠ request.1 := fun heq => hfresh (heq ▸ List.mem_map_of_mem hr)
        rw [hother r.1 hne,hlocks r (List.mem_cons_of_mem request hr)]
      refine Good.andThen (Q := fun b _ => b.radix = t) ?_ fun b _ hb hradix => ?_
      · by_cases hmoved : m.gpuDeltaTokens ≠ 0 ∨ m.recomputedCpuTokens ≠ 0
        · rw [if_pos hmoved]
          refine ha.entry (b := { a with radix := t }) hkept rfl rfl ht ?_ ?_ (add_zero _).symm (add_zero _).symm le_rfl
            le_rfl _ _ _ m
          · -- what has been grown so far is part of the estimate
            have hpart := estimatePaths_le rest hestimate
            refine le_trans (add_le_add_right (mul_le_mul_of_nonneg_right ?_ (Int.natCast_nonneg _)) _) hroom
            change t.gpuTokens ≤ _
            rw [hnext.tokens]
            omega
          · refine le_trans (le_of_eq ?_) ha.host
            exact congrArg (· * (config.bytesPerToken : ℤ)) hcpu
        · rw [if_neg hmoved]
          obtain ⟨hzero,-⟩ := not_or.mp hmoved
          rw [not_not.mp hzero,add_zero] at hgpu
          exact ha.silent ht (Prod.ext hgpu hcpu) hkept rfl
      · subst hradix
        exact ih hb hnext hestimate hlocks' hnodup hroom

theorem materializeBatch_good (ha : Accounted config a) {requestPaths : List (String × List ℤ)}
    (hgoes : ∀ request ∈ requestPaths, a.radix.Continues request.1 request.2) (nowMs : ℚ)
    (futureUses : List FutureRadixUse) (reason : String) :
    Good config done a (a.materializeBatch digest config requestPaths nowMs futureUses reason) fun _ _ => True := by
  unfold materializeBatch
  by_cases hnil : requestPaths = []
  · rw [if_pos hnil]
    exact .stay ha trivial
  rw [if_neg hnil]
  by_cases hids : ¬ (requestPaths.map Prod.fst).Nodup ∨ "" ∈ requestPaths.map Prod.fst
  · rw [if_pos hids]
    exact .raise ha (by decide)
  rw [if_neg hids]
  obtain ⟨hnodup,-⟩ := not_or.mp hids
  refine ha.ask fun tokens htokens => ?_
  refine (ensureCapacity_good ha _ nowMs _ _ futureUses reason).andThen fun b readyMs hb hready => ?_
  obtain ⟨hroom,hreserved⟩ := hready
  refine Good.andThen (Q := fun _ _ => True) ?_ fun c growth hc _ => ?_
  · unfold gpuExtensionUnionTokens at htokens
    cases hestimate : a.radix.estimatePaths {} requestPaths with
    | error raised =>
      rw [hestimate] at htokens
      cases htokens
    | ok e =>
      rw [hestimate] at htokens
      cases htokens
      -- the evictions spared the paths, so the estimate is that of the radix they left
      have hsame := estimatePaths_congr ha.sound hb.sound hreserved.locks (fun i _ => hreserved.symbol i) requestPaths
        Estimate.virtual_start (fun r hr => hreserved.spares r.2 (List.mem_map_of_mem hr)) hgoes
      refine materializeEach_good hb.sound requestPaths hb .start (hsame.trans hestimate) (fun _ _ => rfl)
        (not_not.mp hnodup) ?_
      unfold hbmAvailableBytes hbmOccupiedBytes at hroom
      rw [add_mul]
      omega
  · refine hc.check (fun e he => ?_) fun x _ => .stay hc trivial
    rw [assertCapacity_ok hc] at he
    cases he

theorem completeRequest_good (ha : Accounted config a) (requestId contextId : String) (finalPath : List ℤ) :
    Good config (some requestId) a (a.completeRequest requestId contextId finalPath) fun _ _ => True := by
  unfold completeRequest
  refine ha.ask fun missing _ => ?_
  split_ifs
  · exact .raise ha (by decide)
  refine (ha.still (bindContext_fine ha.sound contextId finalPath) fun t x hcall => ?_).andThen fun b _ hb _ => ?_
  · have hne : contextId ≠ "" := by
      rintro rfl
      unfold bindContext at hcall
      rw [if_pos rfl] at hcall
      cases hcall
    cases hvalid : validatePath finalPath with
    | error e =>
      unfold bindContext at hcall
      rw [if_neg hne,hvalid] at hcall
      cases hcall
    | ok path =>
      obtain rfl := validatePath_eq_ok hvalid
      obtain ⟨u,hbind,hcore⟩ := bindContext_ok (s := a.radix) hne hvalid
      rw [hbind] at hcall
      cases hcall
      exact ⟨hcore.tokens,hcore.kept⟩
  · obtain ⟨hacc,hlog,hkept,-,hraise⟩ := hb.still (unlockRequest_fine hb.sound requestId)
      fun t x hcall => ⟨unlockRequest_tokens hcall,unlockRequest_kept hcall⟩
    exact ⟨hacc,hlog,hkept,fun _ _ => trivial,hraise⟩

theorem prepareHost_good (ha : Accounted config a) (rootPath : List ℤ) (nowMs : ℚ) (reason : String) :
    Good config done a (a.prepareHost config rootPath nowMs reason) fun _ _ => True := by
  unfold prepareHost
  refine ha.ask fun missing hmissing => ?_
  by_cases hfull : (config.hostCapacityBytes : ℤ) < a.hostOccupiedBytes config + missing * config.bytesPerToken
  · rw [if_pos hfull]
    exact .raise ha (by decide)
  rw [if_neg hfull]
  refine .mutate ha (prepareHost_fine ha.sound rootPath) fun t m hcall ht => ?_
  obtain ⟨hgpu,hcpu,htransfer⟩ := prepareHost_tokens ha.sound hcall
  rw [htransfer] at hmissing
  cases hmissing
  have hmore : 0 ≤ (m.transferTokens : ℤ) * config.bytesPerToken := by positivity
  refine Good.andThen (ha.entry (b := { a with
      radix := t
      d2hBytes := a.d2hBytes + m.transferTokens * config.bytesPerToken
      pcieBusyMs := _ }) (prepareHost_kept ha.sound hcall) rfl rfl ht ?_ ?_ rfl (add_zero _).symm hmore
    (le_add_of_nonneg_right (transferMs_nonneg config _ config.d2h_pos)) _ _ _ m) fun c _ hc _ => .stay hc trivial
  · refine le_trans (le_of_eq ?_) ha.hbm
    exact congrArg (fun n : ℤ => config.hbmFixedBytes + n * (config.bytesPerToken : ℤ)) hgpu
  · unfold hostOccupiedBytes at hfull ⊢
    change t.cpuTokens * _ ≤ _
    rw [hcpu,add_mul]
    omega

/-! ## Runs -/

/-- A batch goes on along the paths that its requests lock. -/
def RollingCall.Allowed (a : RollingRadixAllocator) : RollingCall → Prop
  | .materializeBatch requestPaths .. => ∀ request ∈ requestPaths, a.radix.Continues request.1 request.2
  | .admitRequest .. | .completeRequest .. | .prepareHost .. => True

def RollingCall.completes : RollingCall → Option String
  | .completeRequest requestId .. => some requestId
  | .admitRequest .. | .materializeBatch .. | .prepareHost .. => none

theorem call_good (ha : Accounted config a) {c : RollingCall} (hc : c.Allowed a) :
    Good config c.completes a (a.call digest config c) fun _ _ => True := by
  cases c with
  | admitRequest requestId prompt nowMs futureUses => exact (admit_good none ha requestId prompt nowMs futureUses).forget
  | materializeBatch requestPaths nowMs futureUses reason => exact (materializeBatch_good ha hc nowMs futureUses reason).forget
  | completeRequest requestId contextId finalPath => exact completeRequest_good ha requestId contextId finalPath
  | prepareHost rootPath nowMs reason => exact (prepareHost_good ha rootPath nowMs reason).forget

variable (digest config)

def step (a : RollingRadixAllocator) (c : RollingCall) : RollingRadixAllocator := (a.call digest config c).1

def run (a : RollingRadixAllocator) (calls : List RollingCall) : RollingRadixAllocator := calls.foldl (step digest config) a

/-- The calls are allowed where they are made. -/
def AllowedRun : RollingRadixAllocator → List RollingCall → Prop
  | _, [] => True
  | a, c :: calls => c.Allowed a ∧ AllowedRun (step digest config a c) calls

variable {digest config}

theorem allowedRun_append {calls more : List RollingCall} : AllowedRun digest config a (calls ++ more) ↔
    AllowedRun digest config a calls ∧ AllowedRun digest config (run digest config a calls) more := by
  induction calls generalizing a with
  | nil => exact (and_iff_right trivial).symm
  | cons c calls ih =>
    rw [List.cons_append,AllowedRun,AllowedRun,ih,and_assoc]
    exact Iff.rfl

theorem run_good (calls : List RollingCall) : ∀ {a : RollingRadixAllocator}, Accounted config a →
    AllowedRun digest config a calls → Accounted config (run digest config a calls) ∧
      a.events <+: (run digest config a calls).events ∧
      ∀ r, (∀ c ∈ calls, c.completes ≠ some r) → KeptLock r a.radix (run digest config a calls).radix := by
  induction calls with
  | nil => exact fun ha _ => ⟨ha,List.prefix_refl _,fun r _ => Kept.refl none _ r nofun⟩
  | cons c calls ih =>
    rintro a ha ⟨hc,hcalls⟩
    have hgood : Good config c.completes a (a.call digest config c) fun _ _ => True := call_good ha hc
    obtain ⟨hacc,hlog,hkept,-,-⟩ := hgood
    obtain ⟨hrun,hlogs,hlocks⟩ := ih hacc hcalls
    refine ⟨hrun,hlog.trans hlogs,fun r hr => ?_⟩
    exact (hkept r (hr c List.mem_cons_self)).trans (hlocks r fun c' hc' => hr c' (List.mem_cons_of_mem c hc'))

/-- The peak of a log is its fixed part or what some entry came to, and no entry came to more. -/
theorem loggedPeak_spec (fixed : ℤ) (events : List RollingPhysicalEvent) : fixed ≤ loggedPeak fixed events ∧
    (∀ e ∈ events, e.hbmBytesAfter ≤ loggedPeak fixed events) ∧
      (loggedPeak fixed events = fixed ∨ ∃ e ∈ events, e.hbmBytesAfter = loggedPeak fixed events) := by
  induction events using List.reverseRecOn with
  | nil => exact ⟨le_rfl,fun _ h => absurd h List.not_mem_nil,.inl rfl⟩
  | append_singleton events e ih =>
    obtain ⟨hfixed,hall,hsome⟩ := ih
    rw [loggedPeak_concat]
    refine ⟨le_max_of_le_left hfixed,fun f hf => ?_,?_⟩
    · obtain hf | hf := List.mem_append.mp hf
      · exact le_max_of_le_left (hall f hf)
      · rw [List.mem_singleton.mp hf]
        exact le_max_right _ _
    · obtain h | h := le_total e.hbmBytesAfter (loggedPeak fixed events)
      · rw [max_eq_left h]
        exact hsome.imp_right fun ⟨f,hf,heq⟩ => ⟨f,List.mem_append_left [e] hf,heq⟩
      · rw [max_eq_right h]
        exact .inr ⟨e,List.mem_append_right events (List.mem_singleton_self e),rfl⟩

/-- What holds of an allocator after some calls. -/
structure Balanced (digest : List ℤ → String) (config : RollingConfig) (calls : List RollingCall)
    (a : RollingRadixAllocator) : Prop where
  hbm : a.hbmOccupiedBytes config ≤ config.hbmCapacityBytes
  host : a.hostOccupiedBytes config ≤ config.hostCapacityBytes
  asserts : ∀ c : RollingCall, c.Allowed a → ∀ e, (a.call digest config c).2 = .error e → e ∉ capacityErrors
  chained : Logbook.Chained RollingPhysicalEvent.before RollingPhysicalEvent.after (config.hbmFixedBytes,0) a.events
    (a.hbmOccupiedBytes config,a.hostOccupiedBytes config)
  d2h : a.d2hBytes = movedBytes PhysicalKind.toHost a.events
  h2d : a.h2dBytes = movedBytes PhysicalKind.toGpu a.events
  peak_runs : ∀ earlier, earlier <+: calls →
    (run digest config (new config) earlier).hbmOccupiedBytes config ≤ a.hbmPeakBytes
  peak_events : ∀ e ∈ a.events, e.hbmBytesAfter ≤ a.hbmPeakBytes
  peak_reached : a.hbmPeakBytes = config.hbmFixedBytes ∨ ∃ e ∈ a.events, e.hbmBytesAfter = a.hbmPeakBytes
  admitted : ∀ requestId prompt nowMs futureUses admission,
    (a.admitRequest digest config requestId prompt nowMs futureUses).2 = .ok admission →
      ∃ ids, (a.admitRequest digest config requestId prompt nowMs futureUses).1.radix.requestLocks[requestId]? = some ids ∧
        (a.admitRequest digest config requestId prompt nowMs futureUses).1.radix.existingPath 0
          (prompt.take admission.matched.logicalHitTokens) = ids ∧
        ids.length = admission.matched.logicalHitTokens
  locked : ∀ earlier later requestId, calls = earlier ++ later → (∀ c ∈ later, c.completes ≠ some requestId) →
    ∀ ids path, (run digest config (new config) earlier).radix.requestLocks[requestId]? = some ids →
      (run digest config (new config) earlier).radix.existingPath 0 path = ids → path.length = ids.length →
        a.radix.existingPath 0 path = ids ∧ ∀ i ∈ ids, (a.radix.heap i).gpu = true

/-- After every sequence of calls, those that raise included, whose batches extend the locked paths of
their requests: the tiers have room, the check at the end of a call never fails, the log is a ledger,
and what a request locks stays on the GPU until the request completes. -/
theorem rolling_runs_balanced (digest : List ℤ → String) (config : RollingConfig) (calls : List RollingCall)
    (hcalls : AllowedRun digest config (new config) calls) :
    Balanced digest config calls (run digest config (new config) calls) := by
  obtain ⟨ha,-,-⟩ := run_good calls (new_accounted config) hcalls
  obtain ⟨-,hafter,hreached⟩ := loggedPeak_spec config.hbmFixedBytes (run digest config (new config) calls).events
  rw [← ha.peak] at hafter hreached
  refine ⟨ha.hbm,ha.host,fun c hc => (call_good ha hc).raises,ha.chained,ha.d2h,ha.h2d,?_,hafter,hreached,?_,?_⟩
  · rintro earlier ⟨later,rfl⟩
    obtain ⟨hearlier,hlater⟩ := allowedRun_append.mp hcalls
    obtain ⟨hb,-,-⟩ := run_good earlier (new_accounted config) hearlier
    obtain ⟨-,hlog,-⟩ := run_good later hb hlater
    have hrun : run digest config (new config) (earlier ++ later) =
      run digest config (run digest config (new config) earlier) later := List.foldl_append
    obtain ⟨hfixed,-,-⟩ := loggedPeak_spec config.hbmFixedBytes (run digest config (new config) (earlier ++ later)).events
    rw [← ha.peak] at hfixed
    refine hb.chained.ends (P := fun p : ℤ × ℤ => p.1 ≤ _) hfixed fun e he => hafter e ?_
    rw [hrun]
    exact hlog.subset he
  · intro requestId prompt nowMs futureUses admission h
    exact (admit_good none ha requestId prompt nowMs futureUses).returns admission h
  · rintro earlier later requestId rfl hlater ids path hids hpath hlength
    obtain ⟨hbefore,hafter⟩ := allowedRun_append.mp hcalls
    obtain ⟨hb,-,-⟩ := run_good earlier (new_accounted config) hbefore
    obtain ⟨hc,-,hkept⟩ := run_good later hb hafter
    have hrun : run digest config (new config) (earlier ++ later) =
      run digest config (run digest config (new config) earlier) later := List.foldl_append
    rw [hrun]
    exact (hkept requestId hlater).path hb.sound hc.sound hids hpath hlength

/-- Room for one token in each tier. -/
def tinyConfig : RollingConfig where
  hbmCapacityBytes := 48
  hbmFixedBytes := 0
  hostCapacityBytes := 48
  bytesPerToken := 48
  d2hBytesPerMs := 12
  h2dBytesPerMs := 24
  transferSetupMs := 36
  capacity_pos := by decide
  token_pos := by decide
  fixed_le := by decide
  d2h_pos := by norm_num
  h2d_pos := by norm_num
  setup_nonneg := by norm_num

/-- The token of the first request makes room for that of the second one. -/
def twoRequests : List RollingCall :=
  [.admitRequest "first" [7,8] 0 [],.materializeBatch [("first",[7])] 0 [] "progress",
    .completeRequest "first" "context" [7],.admitRequest "second" [5,6] 1 [],
    .materializeBatch [("second",[5])] 1 [] "progress"]

theorem twoRequests_allowed : AllowedRun (fun _ => "") tinyConfig (new tinyConfig) twoRequests := by
  have hfirst : (run (fun _ => "") tinyConfig (new tinyConfig) (twoRequests.take 1)).radix.requestLocks["first"]? =
    some [] := by decide +kernel
  have hsecond : (run (fun _ => "") tinyConfig (new tinyConfig) (twoRequests.take 4)).radix.requestLocks["second"]? =
    some [] := by decide +kernel
  refine ⟨trivial,?_,trivial,trivial,?_,trivial⟩
  · intro request hrequest ids hids
    obtain rfl := List.mem_singleton.mp hrequest
    obtain rfl := Option.some.inj (hfirst.symm.trans hids)
    rfl
  · intro request hrequest ids hids
    obtain rfl := List.mem_singleton.mp hrequest
    obtain rfl := Option.some.inj (hsecond.symm.trans hids)
    rfl

theorem twoRequests_balanced : Balanced (fun _ => "") tinyConfig twoRequests
      (run (fun _ => "") tinyConfig (new tinyConfig) twoRequests) ∧
    (run (fun _ => "") tinyConfig (new tinyConfig) twoRequests).events.map (·.kind) =
      [.materialize,.d2hCommit,.materialize] :=
  ⟨rolling_runs_balanced (fun _ => "") tinyConfig twoRequests twoRequests_allowed,by decide +kernel⟩

end RollingRadixAllocator
end BeliefKV
