import BeliefKV.Rolling.Allocator
import Mathlib.Tactic

/-! The books of the allocator, and the room that it makes without touching the protected paths. -/
namespace BeliefKV

/-- The transfers to the host. -/
def PhysicalKind.toHost : PhysicalKind → Bool
  | .d2hCommit | .d2hShadow => true
  | .drop | .h2dRestore | .materialize => false

/-- The transfers to the GPU. -/
def PhysicalKind.toGpu : PhysicalKind → Bool
  | .h2dRestore => true
  | .d2hCommit | .drop | .materialize | .d2hShadow => false

def RollingPhysicalEvent.before (e : RollingPhysicalEvent) : ℤ × ℤ := (e.hbmBytesBefore,e.hostBytesBefore)

def RollingPhysicalEvent.after (e : RollingPhysicalEvent) : ℤ × ℤ := (e.hbmBytesAfter,e.hostBytesAfter)

/-- The bytes that the logged transfers of some kinds moved. -/
def movedBytes (kinds : PhysicalKind → Bool) (events : List RollingPhysicalEvent) : ℤ :=
  ((events.filter fun e => kinds e.kind).map (·.transferBytes)).sum

/-- The most that was ever occupied according to the log. -/
def loggedPeak (fixed : ℤ) (events : List RollingPhysicalEvent) : ℤ :=
  events.foldl (fun peak e => max peak e.hbmBytesAfter) fixed

theorem movedBytes_concat {kinds : PhysicalKind → Bool} {events : List RollingPhysicalEvent} {e : RollingPhysicalEvent} :
    movedBytes kinds (events ++ [e]) = movedBytes kinds events + if kinds e.kind then e.transferBytes else 0 := by
  unfold movedBytes
  rw [List.filter_append,List.map_append,List.sum_append]
  by_cases h : kinds e.kind = true
  · rw [if_pos h]
    simp [h]
  · rw [if_neg h]
    simp [h]

theorem loggedPeak_concat {fixed : ℤ} {events : List RollingPhysicalEvent} {e : RollingPhysicalEvent} :
    loggedPeak fixed (events ++ [e]) = max (loggedPeak fixed events) e.hbmBytesAfter :=
  List.foldl_concat _ _ _ _

namespace RollingRadixAllocator
open Call TieredTokenRadix
variable {digest : List ℤ → String} {config : RollingConfig} {a b c : RollingRadixAllocator} {α β : Type}
  {done : Option String}

/-! ## Books -/

def occupancy (config : RollingConfig) (a : RollingRadixAllocator) : ℤ × ℤ :=
  (a.hbmOccupiedBytes config,a.hostOccupiedBytes config)

/-- The tiers have room for what they hold, and the log says how it got there. -/
structure Accounted (config : RollingConfig) (a : RollingRadixAllocator) : Prop where
  sound : a.radix.Sound
  hbm : a.hbmOccupiedBytes config ≤ config.hbmCapacityBytes
  host : a.hostOccupiedBytes config ≤ config.hostCapacityBytes
  chained : Logbook.Chained RollingPhysicalEvent.before RollingPhysicalEvent.after (config.hbmFixedBytes,0) a.events
    (a.occupancy config)
  d2h : a.d2hBytes = movedBytes PhysicalKind.toHost a.events
  h2d : a.h2dBytes = movedBytes PhysicalKind.toGpu a.events
  peak : a.hbmPeakBytes = loggedPeak config.hbmFixedBytes a.events

theorem new_accounted (config : RollingConfig) : Accounted config (new config) where
  sound := unchecked_sound
  hbm := by
    have hfixed := config.fixed_le
    change (config.hbmFixedBytes : ℤ) + 0 * config.bytesPerToken ≤ config.hbmCapacityBytes
    omega
  host := by
    change (0 : ℤ) * config.bytesPerToken ≤ config.hostCapacityBytes
    omega
  chained := by
    change ((config.hbmFixedBytes : ℤ),(0 : ℤ)) =
      ((config.hbmFixedBytes : ℤ) + 0 * config.bytesPerToken,(0 : ℤ) * config.bytesPerToken)
    rw [zero_mul,add_zero]
  d2h := rfl
  h2d := rfl
  peak := rfl

theorem occupied_nonneg (config : RollingConfig) (h : b.radix.Sound) : 0 ≤ b.hbmOccupiedBytes config ∧ 0 ≤ b.hostOccupiedBytes config := by
  have hgpu : 0 ≤ b.radix.gpuTokens := by
    rw [h.counted.gpu]
    exact Int.natCast_nonneg _
  have hcpu : 0 ≤ b.radix.cpuTokens := by
    rw [h.counted.cpu]
    exact Int.natCast_nonneg _
  unfold hbmOccupiedBytes hostOccupiedBytes
  constructor
  · positivity
  · positivity

/-- A call on the radix that moves no tokens needs no entry. -/
theorem Accounted.quiet (h : Accounted config a) {t : TieredTokenRadix} (ht : t.Sound)
    (htokens : t.tokens = a.radix.tokens) : Accounted config { a with radix := t } := by
  obtain ⟨hgpu,hcpu⟩ := Prod.mk.inj htokens
  have hhbm : ({ a with radix := t } : RollingRadixAllocator).hbmOccupiedBytes config = a.hbmOccupiedBytes config := by
    unfold hbmOccupiedBytes
    rw [hgpu]
  have hhost : ({ a with radix := t } : RollingRadixAllocator).hostOccupiedBytes config = a.hostOccupiedBytes config := by
    unfold hostOccupiedBytes
    rw [hcpu]
  refine ⟨ht,hhbm.trans_le h.hbm,hhost.trans_le h.host,?_,h.d2h,h.h2d,h.peak⟩
  unfold occupancy
  rw [hhbm,hhost]
  exact h.chained

theorem transferMs_nonneg (config : RollingConfig) (bytes : ℤ) {rate : ℚ} (hrate : 0 < rate) :
    0 ≤ transferMs config bytes rate := by
  unfold transferMs
  split_ifs with hbytes
  · exact le_rfl
  · have hsetup := config.setup_nonneg
    have hpos : (0 : ℚ) ≤ bytes := by exact_mod_cast (not_le.mp hbytes).le
    positivity

/-! ## Calls -/

/-- The errors of the check at the end of a call. -/
def capacityErrors : List RollingRaised :=
  [.replayError "rolling allocator exceeded HBM capacity",.replayError "rolling allocator exceeded Host capacity"]

/-- A call keeps the books, the log and the locks and never fails that check. -/
structure Good (config : RollingConfig) (done : Option String) (a : RollingRadixAllocator)
    (call : RollingRadixAllocator × Except RollingRaised α) (Q : RollingRadixAllocator → α → Prop) : Prop where
  accounted : Accounted config call.1
  logged : a.events <+: call.1.events
  kept : Kept done a.radix call.1.radix
  returns : ∀ x, call.2 = .ok x → Q call.1 x
  raises : ∀ e, call.2 = .error e → e ∉ capacityErrors

namespace Good
variable {Q : RollingRadixAllocator → α → Prop} {R : RollingRadixAllocator → β → Prop}

theorem ok (hb : Accounted config b) (hlog : a.events <+: b.events) (hkept : Kept done a.radix b.radix) {x : α}
    (hq : Q b x) : Good config done a (b,.ok x) Q := by
  refine ⟨hb,hlog,hkept,fun y hy => ?_,nofun⟩
  cases hy
  exact hq

theorem raise (ha : Accounted config a) {e : RollingRaised} (he : e ∉ capacityErrors) :
    Good config done a ((a,.error e) : RollingRadixAllocator × Except RollingRaised α) Q := by
  refine ⟨ha,List.prefix_refl _,.refl done a.radix,nofun,fun e' he' => ?_⟩
  cases he'
  exact he

/-- Nothing happens. -/
theorem stay (ha : Accounted config a) {x : α} (hq : Q a x) : Good config done a (a,.ok x) Q :=
  .ok ha (List.prefix_refl _) (.refl done a.radix) hq

/-- One call after another. -/
theorem andThen {call : RollingRadixAllocator × Except RollingRaised α}
    {next : RollingRadixAllocator → α → RollingRadixAllocator × Except RollingRaised β} (h : Good config done a call Q)
    (hnext : ∀ b x, Accounted config b → Q b x → Good config done b (next b x) R) :
    Good config done a (andThen call next) R := by
  obtain ⟨b,result⟩ := call
  cases result with
  | error e => exact ⟨h.accounted,h.logged,h.kept,nofun,fun e' he' => by cases he'; exact h.raises e rfl⟩
  | ok x =>
    obtain ⟨hacc,hlog,hkept,hret,hraise⟩ := hnext b x h.accounted (h.returns x rfl)
    exact ⟨hacc,h.logged.trans hlog,h.kept.trans hkept,hret,hraise⟩

theorem forget {call : RollingRadixAllocator × Except RollingRaised α} (h : Good config done a call Q) :
    Good config done a (Call.andThen call fun b _ => ((b,.ok ()) : RollingRadixAllocator × Except RollingRaised Unit))
      fun _ _ => True :=
  h.andThen fun _ _ hb _ => .stay hb trivial

/-- A call on the radix, and what comes after it. -/
theorem mutate (ha : Accounted config a) {call : TieredTokenRadix × Except RadixRaised α} (hfine : Fine a.radix call)
    {next : RollingRadixAllocator → α → RollingRadixAllocator × Except RollingRaised β}
    (hnext : ∀ t x, call = (t,.ok x) → t.Sound → Good config done a (next { a with radix := t } x) R) :
    Good config done a (Call.andThen (a.onRadix call) next) R := by
  obtain ⟨t,result⟩ := call
  cases result with
  | error e =>
    obtain ⟨rfl,-⟩ := hfine.raises e rfl
    refine raise ha ?_
    simp [capacityErrors]
  | ok x => exact hnext t x rfl hfine.sound

end Good

/-- A call on the radix that moves tokens gets an entry, which is never refused. -/
theorem Accounted.entry (h : Accounted config a) (hkept : Kept done a.radix b.radix) (hevents : b.events = a.events) (hpeak : b.hbmPeakBytes = a.hbmPeakBytes)
    (hsound : b.radix.Sound) (hhbm : b.hbmOccupiedBytes config ≤ config.hbmCapacityBytes)
    (hhost : b.hostOccupiedBytes config ≤ config.hostCapacityBytes) {kind : PhysicalKind} {transfer : ℤ}
    (hd2h : b.d2hBytes = a.d2hBytes + if kind.toHost then transfer else 0)
    (hh2d : b.h2dBytes = a.h2dBytes + if kind.toGpu then transfer else 0) (htransfer : 0 ≤ transfer) {startMs endMs : ℚ}
    (htime : startMs ≤ endMs) (reason : String) (requestId bundleId : Option String) (mutation : TieredRadixMutation) :
    Good config done a (b.appendEvent config startMs endMs kind reason requestId bundleId mutation transfer
      (a.hbmOccupiedBytes config) (a.hostOccupiedBytes config)) fun c _ => c.radix = b.radix := by
  obtain ⟨hbefore,hbefore'⟩ := occupied_nonneg config h.sound
  obtain ⟨hafter,hafter'⟩ := occupied_nonneg config hsound
  unfold appendEvent
  rw [dif_pos htime,dif_pos ⟨htransfer,hbefore,hafter,hbefore',hafter'⟩]
  apply Good.ok
  · refine ⟨hsound,hhbm,hhost,?_,?_,?_,?_⟩
    · simp only [hevents]
      exact Logbook.Chained.concat h.chained
    · simp only [hevents]
      rw [movedBytes_concat,hd2h,h.d2h]
    · simp only [hevents]
      rw [movedBytes_concat,hh2d,h.h2d]
    · simp only [hevents,hpeak]
      rw [loggedPeak_concat,h.peak]
  · simp only [hevents]
    exact List.prefix_append _ _
  · exact hkept
  · rfl

/-- What is only asked of the radix. -/
theorem Accounted.ask (ha : Accounted config a) {result : Except RadixRaised α}
    {next : RollingRadixAllocator → α → RollingRadixAllocator × Except RollingRaised β} {R : RollingRadixAllocator → β → Prop}
    (hnext : ∀ x, result = .ok x → Good config done a (next a x) R) :
    Good config done a (andThen (a.onRadix (a.radix,result)) next) R := by
  cases result with
  | error e =>
    refine .raise ha ?_
    simp [capacityErrors]
  | ok x => exact hnext x rfl

/-- What is only looked at. -/
theorem Accounted.check (ha : Accounted config a) {result : Except RollingRaised α}
    {next : RollingRadixAllocator → α → RollingRadixAllocator × Except RollingRaised β} {R : RollingRadixAllocator → β → Prop}
    (herr : ∀ e, result = .error e → e ∉ capacityErrors) (hnext : ∀ x, result = .ok x → Good config done a (next a x) R) :
    Good config done a (andThen (a,result) next) R := by
  cases result with
  | error e => exact .raise ha (herr e rfl)
  | ok x => exact hnext x rfl

theorem assertCapacity_ok (ha : Accounted config a) : a.assertCapacity config = .ok () := by
  unfold assertCapacity
  rw [if_neg (not_lt.mpr ha.hbm),if_neg (not_lt.mpr ha.host)]

/-! ## Bundles -/

theorem mem_mapM {A B E : Type} {f : A → Except E B} {l : List A} : ∀ {out : List B}, l.mapM f = .ok out →
    ∀ y ∈ out, ∃ x ∈ l, f x = .ok y := by
  induction l with
  | nil =>
    intro out h
    cases h
    exact nofun
  | cons x l ih =>
    intro out h y hy
    rw [List.mapM_cons] at h
    cases hx : f x with
    | error e =>
      rw [hx] at h
      cases h
    | ok z =>
      rw [hx] at h
      cases hl : l.mapM f with
      | error e =>
        rw [hl] at h
        cases h
      | ok rest =>
        rw [hl] at h
        cases h
        obtain rfl | hy := List.mem_cons.mp hy
        · exact ⟨x,List.mem_cons_self,hx⟩
        · obtain ⟨w,hw,hfw⟩ := ih hl y hy
          exact ⟨w,List.mem_cons_of_mem x hw,hfw⟩

theorem leastBundle_mem {le : TieredRadixBundle → TieredRadixBundle → Bool} {bundles : List TieredRadixBundle}
    {least : TieredRadixBundle} (h : leastBundle le bundles = some least) : least ∈ bundles := by
  cases bundles with
  | nil => cases h
  | cons b bundles =>
    cases h
    refine List.foldlRecOn bundles _ List.mem_cons_self fun least hleast b' hb' => ?_
    split_ifs
    · exact hleast
    · exact List.mem_cons_of_mem b hb'

theorem mapM_error {A B E : Type} {f : A → Except E B} {l : List A} : ∀ {e : E}, l.mapM f = .error e →
    ∃ x ∈ l, f x = .error e := by
  induction l with
  | nil =>
    intro e h
    cases h
  | cons x l ih =>
    intro e h
    rw [List.mapM_cons] at h
    cases hx : f x with
    | error e' =>
      rw [hx] at h
      cases h
      exact ⟨x,List.mem_cons_self,hx⟩
    | ok z =>
      rw [hx] at h
      cases hl : l.mapM f with
      | error e' =>
        rw [hl] at h
        cases h
        obtain ⟨w,hw,hfw⟩ := ih hl
        exact ⟨w,List.mem_cons_of_mem x hw,hfw⟩
      | ok rest =>
        rw [hl] at h
        cases h

/-- A bundle of a radix: no protected path leads into it, and the host lacks so much of it. -/
structure Candidate (s : TieredTokenRadix) (protectedPaths : List (List ℤ)) (b : TieredRadixBundle) : Prop where
  clear : ∀ path ∈ protectedPaths, ¬ b.rootPath <+: path
  missing : b.missingCpuTokens = (s.subtreeNodes (endOf 0 (s.existingPath 0 b.rootPath))).countP s.uncopied

theorem bundle_spec {s : TieredTokenRadix} (hs : s.Sound) {i : ℕ} (hi : i ∈ s.nodesById) (hne : i ≠ 0)
    {b : TieredRadixBundle} (h : s.bundle digest i = .ok b) :
    b.missingCpuTokens = (s.subtreeNodes (endOf 0 (s.existingPath 0 b.rootPath))).countP s.uncopied := by
  obtain ⟨q,hq,hleads⟩ := hs.linked.nodePath hi
  unfold TieredTokenRadix.bundle at h
  rw [hq] at h
  simp only at h
  cases hid : bundleId digest q with
  | error e =>
    rw [hid] at h
    cases h
  | ok id =>
    rw [hid] at h
    cases h
    simp only
    rw [hleads.existingPath.2]
    apply List.countP_congr
    intro j hj
    have hpos := Finset.ne_of_mem_erase (hs.linked.subtree_pos hi hne j hj)
    simp [hpos,uncopied]

theorem bundle_error {s : TieredTokenRadix} {i : ℕ} {e : RollingRaised} (h : s.bundle digest i = .error e) :
    e ∉ capacityErrors := by
  unfold TieredTokenRadix.bundle at h
  cases hq : s.nodePath i with
  | error raised =>
    rw [hq] at h
    cases h
    simp [capacityErrors]
  | ok q =>
    rw [hq] at h
    simp only at h
    unfold bundleId at h
    split_ifs at h
    cases h
    simp [capacityErrors]

theorem closureSafe_candidates (hs : a.radix.Sound) {protectedPaths : List (List ℤ)} {candidates : List TieredRadixBundle}
    (h : a.closureSafe digest protectedPaths = .ok candidates) :
    ∀ b ∈ candidates, Candidate a.radix protectedPaths b := by
  intro b hb
  unfold closureSafe evictableBundles at h
  cases hall : ((a.radix.subtreeNodes 0).reverse.filter fun i => a.radix.Evictable i).mapM (a.radix.bundle digest) with
  | error e =>
    rw [hall] at h
    cases h
  | ok bundles =>
    rw [hall] at h
    cases h
    obtain ⟨hmem,hclear⟩ := List.mem_filter.mp hb
    obtain ⟨i,hi,hbundle⟩ := mem_mapM hall b (List.mem_mergeSort.mp hmem)
    obtain ⟨hi,hevictable⟩ := List.mem_filter.mp hi
    have hin := (hs.linked.subtree hs.linked.root).2.1 i (List.mem_reverse.mp hi)
    refine ⟨fun path hpath hpath' => ?_,bundle_spec hs hin (of_decide_eq_true hevictable).1 hbundle⟩
    exact of_decide_eq_true hclear ⟨path,hpath,hpath'⟩

theorem closureSafe_error {protectedPaths : List (List ℤ)} {e : RollingRaised}
    (h : a.closureSafe digest protectedPaths = .error e) : e ∉ capacityErrors := by
  unfold closureSafe evictableBundles at h
  cases hall : ((a.radix.subtreeNodes 0).reverse.filter fun i => a.radix.Evictable i).mapM (a.radix.bundle digest) with
  | error e' =>
    rw [hall] at h
    cases h
    obtain ⟨i,-,hi⟩ := mapM_error hall
    exact bundle_error hi
  | ok bundles =>
    rw [hall] at h
    cases h

theorem chooseBundle_mem {candidates : List TieredRadixBundle} {futureUses : List FutureRadixUse}
    {chosen : TieredRadixBundle × Option ℕ} (h : a.chooseBundle config candidates futureUses = .ok (some chosen)) :
    chosen.1 ∈ candidates := by
  unfold chooseBundle at h
  cases hmode : config.mode with
  | reactiveLru =>
    rw [hmode] at h
    obtain ⟨b,hb,rfl⟩ := Option.map_eq_some_iff.mp (Except.ok.inj h)
    exact leastBundle_mem hb
  | hindsightNextUse =>
    rw [hmode] at h
    simp only at h
    cases huse : a.radix.futureUseIndices (futureUses.map (·.promptTokenSymbols)) with
    | error raised =>
      rw [huse] at h
      cases h
    | ok nextUse =>
      rw [huse] at h
      obtain ⟨b,hb,rfl⟩ := Option.map_eq_some_iff.mp (Except.ok.inj h)
      exact leastBundle_mem hb

theorem chooseBundle_error {candidates : List TieredRadixBundle} {futureUses : List FutureRadixUse} {e : RollingRaised}
    (h : a.chooseBundle config candidates futureUses = .error e) : e ∉ capacityErrors := by
  unfold chooseBundle at h
  cases hmode : config.mode with
  | reactiveLru =>
    rw [hmode] at h
    cases h
  | hindsightNextUse =>
    rw [hmode] at h
    simp only at h
    cases huse : a.radix.futureUseIndices (futureUses.map (·.promptTokenSymbols)) with
    | error raised =>
      rw [huse] at h
      cases h
      simp [capacityErrors]
    | ok nextUse =>
      rw [huse] at h
      cases h

theorem noBundle_notMem (requiredBytes : ℤ) (requestId : String) :
    a.noBundle config requiredBytes requestId ∉ capacityErrors := by
  intro hmem
  unfold noBundle capacityErrors at hmem
  rw [String.append_assoc,String.append_assoc] at hmem
  obtain h | h := List.mem_cons.mp hmem
  · injection h with h
    exact append_ne (by decide) _ h
  · injection List.mem_singleton.mp h with h
    exact append_ne (by decide) _ h

/-! ## Room -/

/-- Evictions leave the locks and the protected paths as they are. -/
structure Reserved (s t : TieredTokenRadix) (protectedPaths : List (List ℤ)) : Prop where
  locks : t.requestLocks = s.requestLocks
  symbol : ∀ i, (t.heap i).symbol = (s.heap i).symbol
  spares : ∀ path ∈ protectedPaths, Spared s t path

theorem Reserved.refl (s : TieredTokenRadix) (protectedPaths : List (List ℤ)) : Reserved s s protectedPaths :=
  ⟨rfl,fun _ => rfl,fun _ _ => ⟨rfl,fun _ _ => rfl⟩⟩

theorem Reserved.trans {s t u : TieredTokenRadix} {protectedPaths : List (List ℤ)} (h : Reserved s t protectedPaths)
    (h' : Reserved t u protectedPaths) : Reserved s u protectedPaths := by
  refine ⟨h'.locks.trans h.locks,fun i => (h'.symbol i).trans (h.symbol i),fun path hpath => ?_⟩
  have hst := h.spares path hpath
  have htu := h'.spares path hpath
  refine ⟨htu.path.trans hst.path,fun i hi => ?_⟩
  rw [htu.gpu i (by rwa [hst.path]),hst.gpu i hi]

/-- One round of the evictions spares what is protected. -/
theorem evict_good (ha : Accounted config a) {protectedPaths : List (List ℤ)} {bundle : TieredRadixBundle}
    (hb : Candidate a.radix protectedPaths bundle) (nextUse : Option ℕ) (cursor : ℚ) (requestId reason : String) :
    Good config done a (a.evict config bundle nextUse cursor requestId reason)
      fun b _ => Reserved a.radix b.radix protectedPaths := by
  have hreserved {t : TieredTokenRadix} (h : Evicted a.radix t bundle.rootPath) : Reserved a.radix t protectedPaths :=
    ⟨h.locks,h.symbol,fun path hpath => h.spares path (hb.clear path hpath)⟩
  have htoken : (0 : ℤ) ≤ config.bytesPerToken := Int.natCast_nonneg _
  have hhbm := ha.hbm
  unfold hbmOccupiedBytes at hhbm
  unfold evict
  simp only
  split_ifs with hpreserve
  · refine .mutate ha (commitCpu_fine ha.sound _) fun t m hcall ht => ?_
    obtain ⟨hgpu,hcpu,htransfer⟩ := commitCpu_tokens ha.sound hcall
    have hevicted := hreserved (commitCpu_evicted ha.sound hcall)
    have hmore : 0 ≤ (m.transferTokens : ℤ) * config.bytesPerToken := by positivity
    refine Good.andThen (ha.entry (b := { a with
        radix := t
        d2hBytes := a.d2hBytes + m.transferTokens * config.bytesPerToken
        pcieBusyMs := _ }) (.of_same hevicted.locks hevicted.symbol) rfl rfl ht ?_ ?_ rfl (add_zero _).symm hmore
      (le_add_of_nonneg_right (transferMs_nonneg config _ config.d2h_pos)) _ _ _ m) fun c _ hc hradix => ?_
    · refine le_trans ?_ hhbm
      exact add_le_add_right (mul_le_mul_of_nonneg_right hgpu htoken) _
    · have hroom := hpreserve.2
      rw [hb.missing,← htransfer] at hroom
      unfold hostOccupiedBytes at hroom ⊢
      change t.cpuTokens * _ ≤ _
      rw [hcpu,add_mul]
      exact hroom
    · refine .stay hc ?_
      rw [hradix]
      exact hevicted
  · refine .mutate ha (dropSubtree_fine ha.sound _) fun t m hcall ht => ?_
    obtain ⟨hgpu,hcpu⟩ := dropSubtree_tokens hcall
    have hevicted := hreserved (dropSubtree_evicted ha.sound hcall)
    refine Good.andThen (ha.entry (b := { a with radix := t }) (.of_same hevicted.locks hevicted.symbol) rfl rfl ht ?_ ?_
      (add_zero _).symm (add_zero _).symm le_rfl le_rfl _ _ _ m) fun c _ hc hradix => ?_
    · refine le_trans ?_ hhbm
      exact add_le_add_right (mul_le_mul_of_nonneg_right hgpu htoken) _
    · refine le_trans ?_ ha.host
      exact mul_le_mul_of_nonneg_right hcpu htoken
    · refine .stay hc ?_
      rw [hradix]
      exact hevicted

theorem evictUntil_good {requiredBytes : ℤ} {requestId : String} {protectedPaths : List (List ℤ)}
    {futureUses : List FutureRadixUse} {reason : String} (fuel : ℕ) :
    ∀ {a : RollingRadixAllocator} (cursor : ℚ), Accounted config a → Good config done a
      (evictUntil digest config requiredBytes requestId protectedPaths futureUses reason fuel a cursor)
      fun b _ => requiredBytes ≤ b.hbmAvailableBytes config ∧ Reserved a.radix b.radix protectedPaths := by
  induction fuel with
  | zero =>
    intro a cursor ha
    rw [evictUntil]
    split_ifs with hroom
    · exact .stay ha ⟨hroom,.refl _ _⟩
    · exact .raise ha (noBundle_notMem _ _)
  | succ fuel ih =>
    intro a cursor ha
    rw [evictUntil]
    by_cases hroom : requiredBytes ≤ a.hbmAvailableBytes config
    · rw [if_pos hroom]
      exact .stay ha ⟨hroom,.refl _ _⟩
    rw [if_neg hroom]
    refine ha.check (fun e he => closureSafe_error he) fun candidates hcandidates => ?_
    refine ha.check (fun e he => chooseBundle_error he) fun chosen hchosen => ?_
    cases chosen with
    | none => exact .raise ha (noBundle_notMem _ _)
    | some chosen =>
      have hcandidate := closureSafe_candidates ha.sound hcandidates chosen.1 (chooseBundle_mem hchosen)
      refine (evict_good ha hcandidate chosen.2 cursor requestId reason).andThen fun b cursor hb hreserved => ?_
      obtain ⟨hacc,hlog,hkept,hret,hraise⟩ := ih cursor hb
      exact ⟨hacc,hlog,hkept,fun x hx => ⟨(hret x hx).1,hreserved.trans (hret x hx).2⟩,hraise⟩

theorem ensureCapacity_good (ha : Accounted config a) (requiredBytes : ℤ) (nowMs : ℚ) (requestId : String)
    (protectedPaths : List (List ℤ)) (futureUses : List FutureRadixUse) (reason : String) :
    Good config done a (a.ensureCapacity digest config requiredBytes nowMs requestId protectedPaths futureUses reason)
      fun b _ => requiredBytes ≤ b.hbmAvailableBytes config ∧ Reserved a.radix b.radix protectedPaths := by
  unfold ensureCapacity
  by_cases hneg : requiredBytes < 0
  · rw [if_pos hneg]
    exact .raise ha (by decide)
  rw [if_neg hneg]
  by_cases hroom : requiredBytes ≤ a.hbmAvailableBytes config
  · rw [if_pos hroom]
    exact .stay ha ⟨hroom,.refl _ _⟩
  rw [if_neg hroom]
  refine ha.check (fun e he => closureSafe_error he) fun candidates _ => ?_
  split_ifs
  · exact .raise ha (noBundle_notMem _ _)
  · exact evictUntil_good _ nowMs ha

end RollingRadixAllocator
end BeliefKV
