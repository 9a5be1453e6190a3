import BeliefKV.Rolling.Thorough

/-! The room that an allocator makes after any calls, and when it says that there is none though there is. -/
namespace BeliefKV

namespace TieredTokenRadix
open Call
variable {s t : TieredTokenRadix} {i : ℕ} {x : ℤ}

/-! ## Symbols -/

theorem Unsigned.of_children (hu : s.Unsigned) (h : ∀ j, (t.heap j).children = (s.heap j).children) :
    t.Unsigned := by
  refine hu.mono fun {i x c} hc => ?_
  unfold Child at hc ⊢
  rwa [h] at hc

theorem children_ite {p : Prop} [Decidable p] {m n : TieredTrieNode} (h : m.children = n.children) :
    (if p then m else n).children = n.children := by
  split_ifs
  · exact h
  · rfl

theorem Unsigned.touchNodes (hu : s.Unsigned) (ids : List ℕ) : (s.touchNodes ids).Unsigned :=
  (SameCore.touchNodes s ids).toSameLinks.unsigned hu

theorem Unsigned.checked {A : Type} (hu : s.Unsigned) (a : A) : (s.checked a).1.Unsigned :=
  andThen_cases (P := Unsigned) hu fun _ => hu

theorem matchPrompt_unsigned (hu : s.Unsigned) (prompt : List ℤ) (touch : Bool) :
    (s.matchPrompt prompt touch).1.Unsigned := by
  refine andThen_cases (P := Unsigned) hu fun path => ?_
  simp only
  split_ifs
  · exact hu.touchNodes _
  · exact hu

theorem lockPrefix_unsigned (hu : s.Unsigned) (requestId : String) (path : List ℤ) (tokenCount : ℤ) :
    (s.lockPrefix requestId path tokenCount).1.Unsigned := by
  unfold lockPrefix
  split_ifs
  · exact hu
  · exact hu
  refine andThen_cases (P := Unsigned) hu fun normalized => ?_
  simp only
  split_ifs
  · exact hu
  · exact hu
  · exact Unsigned.checked (hu.of_children fun j => children_ite (by rfl)) ()

theorem unlockRequest_unsigned (hu : s.Unsigned) (requestId : String) : (s.unlockRequest requestId).1.Unsigned := by
  unfold unlockRequest
  cases s.requestLocks[requestId]? with
  | none => exact hu
  | some nodeIds => exact hu.of_children fun j => children_ite (by rfl)

theorem bindContext_unsigned (hu : s.Unsigned) (contextId : String) (path : List ℤ) :
    (s.bindContext contextId path).1.Unsigned := by
  unfold bindContext
  split_ifs
  · exact hu
  refine andThen_cases (P := Unsigned) hu fun normalized => ?_
  have hclear : (s.editAll (s.existingPath 0 (s.contextPaths[contextId]?.getD [])) fun n =>
      { n with ownerContextIds := n.ownerContextIds.erase contextId }).Unsigned :=
    hu.of_children fun j => children_ite (by rfl)
  refine hclear.of_children fun j => children_ite ?_
  split_ifs <;> rfl

theorem restoreNodes_unsigned (nodes : List ℕ) : ∀ {s : TieredTokenRadix} (n : ℕ), s.Unsigned →
    (restoreNodes s n nodes).1.Unsigned := by
  induction nodes with
  | nil => exact fun _ hu => hu
  | cons i nodes ih =>
    intro s n hu
    rw [restoreNodes]
    split_ifs
    · exact ih n hu
    · exact hu
    · exact ih (n + 1) ((SameLinks.enterGpu s i).unsigned hu)

theorem restorePrefix_unsigned (hu : s.Unsigned) (prompt : List ℤ) (tokenCount : ℤ) :
    (s.restorePrefix prompt tokenCount).1.Unsigned := by
  refine andThen_cases (P := Unsigned) hu fun normalized => ?_
  simp only
  split_ifs
  · exact hu
  · exact hu
  refine andThen_cases (P := Unsigned) (restoreNodes_unsigned _ 0 hu) fun restored => ?_
  exact Unsigned.checked ((restoreNodes_unsigned _ 0 hu).touchNodes _) _

theorem foldl_unsigned {B : Type} {step : TieredTokenRadix × B → ℕ → TieredTokenRadix × B}
    (hstep : ∀ acc i, acc.1.Unsigned → (step acc i).1.Unsigned) (nodes : List ℕ) :
    ∀ acc, acc.1.Unsigned → (nodes.foldl step acc).1.Unsigned := by
  induction nodes with
  | nil => exact fun _ h => h
  | cons i nodes ih => exact fun acc h => ih (step acc i) (hstep acc i h)

theorem prepareNode_unsigned (acc : TieredTokenRadix × ℕ) (i : ℕ) (hu : acc.1.Unsigned) :
    (prepareNode acc i).1.Unsigned := by
  unfold prepareNode
  split_ifs
  · exact hu.of_children fun j => children_ite (by rfl)
  · exact hu

theorem commitNode_unsigned (acc : TieredTokenRadix × ℕ × ℕ) (i : ℕ) (hu : acc.1.Unsigned) :
    (commitNode acc i).1.Unsigned := by
  have hprepared := prepareNode_unsigned (acc.1,acc.2.1) i hu
  unfold commitNode
  simp only
  split_ifs
  · exact hprepared.of_children fun j => children_ite (by rfl)
  · exact hprepared

theorem prepareHost_unsigned (hu : s.Unsigned) (rootPath : List ℤ) : (s.prepareHost rootPath).1.Unsigned := by
  refine andThen_cases (P := Unsigned) hu fun found => ?_
  exact Unsigned.checked (foldl_unsigned prepareNode_unsigned _ (s,0) hu) _

theorem commitCpu_unsigned (hu : s.Unsigned) (rootPath : List ℤ) : (s.commitCpu rootPath).1.Unsigned := by
  refine andThen_cases (P := Unsigned) hu fun found => ?_
  simp only
  split_ifs
  · exact hu
  · exact Unsigned.checked (foldl_unsigned commitNode_unsigned _ (s,0,0) hu) _

theorem dropSubtree_unsigned (hu : s.Unsigned) (rootPath : List ℤ) : (s.dropSubtree rootPath).1.Unsigned := by
  refine andThen_cases (P := Unsigned) hu fun found => ?_
  simp only
  split_ifs
  · exact hu
  cases (s.heap found.1).parent with
  | none => exact hu
  | some parent =>
    cases (s.heap found.1).symbol with
    | none => exact hu
    | some x => exact Unsigned.checked (hu.mono fun hc => (child_detach.mp hc).2) _

theorem childOrNew_unsigned (hu : s.Unsigned) (node : ℕ) (hx : 0 ≤ x ∧ x < 2 ^ 64) :
    (s.childOrNew node x).1.Unsigned := by
  unfold childOrNew
  cases hc : (s.heap node).children[x]? with
  | some c => exact hu
  | none =>
    have hnew : (s.newNode x node).Unsigned := by
      refine hu.mono fun {j y d} hd => ?_
      unfold Child at hd ⊢
      change (if j = s.nextNodeId then _ else s.heap j).children[y]? = _ at hd
      split_ifs at hd
      · simp at hd
      · exact hd
    intro j y d hd
    unfold Child at hd
    change (if j = node then _ else (s.newNode x node).heap j).children[y]? = _ at hd
    split_ifs at hd with hj
    · simp only [Dict.get_insert] at hd
      split_ifs at hd with hxy
      · exact hxy ▸ hx
      · exact hnew j y d hd
    · exact hnew j y d hd

theorem lockNode_unsigned (hu : s.Unsigned) (request : Option String) (i : ℕ) : (s.lockNode request i).Unsigned := by
  unfold lockNode
  cases request with
  | none => exact hu
  | some requestId => exact hu.of_children fun j => children_ite (by rfl)

theorem growPath_unsigned (request : Option String) (message : String) (path : List ℤ) :
    ∀ {s : TieredTokenRadix} (node : ℕ) (acc : Growth), s.Unsigned → (∀ x ∈ path, 0 ≤ x ∧ x < 2 ^ 64) →
      (growPath request message s node acc path).1.Unsigned := by
  induction path with
  | nil => exact fun _ _ hu _ => hu
  | cons x path ih =>
    intro s node acc hu hpath
    obtain ⟨hx,hrest⟩ := List.forall_mem_cons.mp hpath
    have hchild := childOrNew_unsigned hu node hx
    rw [growPath]
    by_cases hgpu : ((s.childOrNew node x).1.heap (s.childOrNew node x).2).gpu = true
    · rw [if_pos hgpu]
      exact ih _ _ (lockNode_unsigned hchild request _) hrest
    rw [if_neg hgpu]
    by_cases habove : ((s.childOrNew node x).1.heap node).gpu = false
    · rw [if_pos habove]
      exact hchild
    · rw [if_neg habove]
      exact ih _ _ (lockNode_unsigned ((SameLinks.enterGpu _ _).unsigned hchild) request _) hrest

theorem extendRequestGpu_unsigned (hu : s.Unsigned) (requestId : String) {path : List ℤ}
    (hpath : ∀ x ∈ path, 0 ≤ x ∧ x < 2 ^ 64) : (s.extendRequestGpu requestId path true).1.Unsigned := by
  unfold extendRequestGpu
  rw [if_pos rfl,andThen_ok]
  refine andThen_cases (P := Unsigned) hu fun endpoint => ?_
  have hgrow := growPath_unsigned (some requestId) "GPU extension requires a GPU-resident ancestor"
    (path.drop endpoint.2) endpoint.1 {} hu fun x hx => hpath x (List.mem_of_mem_drop hx)
  exact andThen_cases (P := Unsigned) hgrow fun growth => Unsigned.checked (hgrow.touchNodes _) _

end TieredTokenRadix

namespace RollingRadixAllocator
open Call TieredTokenRadix
variable {digest : List ℤ → String} {config : RollingConfig} {a b : RollingRadixAllocator} {paths : List (List ℤ)}

/-! ## Calls -/

theorem Tidy.onRadix {A : Type} {call : TieredTokenRadix × Except RadixRaised A} (hs : call.1.Sound)
    (hu : call.1.Unsigned) : Tidy (a.onRadix call).1 := ⟨hs,hu⟩

theorem Tidy.appendEvent (ha : Tidy a) (config : RollingConfig) (startMs endMs : ℚ) (kind : PhysicalKind)
    (reason : String) (requestId bundleId : Option String) (mutation : TieredRadixMutation)
    (transferBytes hbmBefore hostBefore : ℤ) :
    Tidy (a.appendEvent config startMs endMs kind reason requestId bundleId mutation transferBytes hbmBefore
      hostBefore).1 := by
  unfold RollingRadixAllocator.appendEvent
  split_ifs
  · exact ⟨ha.sound,ha.unsigned⟩
  · exact ha
  · exact ha

/-- The end of a call: its entry is written, and what it returns. -/
theorem Tidy.logged {A : Type} (ha : Tidy a) {startMs endMs : ℚ} {kind : PhysicalKind} {reason : String}
    {requestId bundleId : Option String} {mutation : TieredRadixMutation} {transferBytes hbmBefore hostBefore : ℤ}
    (x : A) :
    Tidy (andThen (a.appendEvent config startMs endMs kind reason requestId bundleId mutation transferBytes hbmBefore
      hostBefore) fun b _ => ((b,.ok x) : RollingRadixAllocator × Except RollingRaised A)).1 := by
  have hlog := ha.appendEvent config startMs endMs kind reason requestId bundleId mutation transferBytes
    hbmBefore hostBefore
  exact andThen_cases (P := Tidy) hlog fun _ => hlog

theorem evict_tidy (config : RollingConfig) (ha : Tidy a) (bundle : TieredRadixBundle) (nextUse : Option ℕ)
    (cursor : ℚ) (requestId reason : String) : Tidy (a.evict config bundle nextUse cursor requestId reason).1 := by
  have hcommit : Tidy (a.onRadix (a.radix.commitCpu bundle.rootPath)).1 :=
    .onRadix (commitCpu_fine ha.sound _).sound (commitCpu_unsigned ha.unsigned _)
  have hdrop : Tidy (a.onRadix (a.radix.dropSubtree bundle.rootPath)).1 :=
    .onRadix (dropSubtree_fine ha.sound _).sound (dropSubtree_unsigned ha.unsigned _)
  unfold evict
  simp only
  split_ifs
  · refine andThen_cases (P := Tidy) hcommit fun mutation => ?_
    exact Tidy.logged (by exact ⟨hcommit.sound,hcommit.unsigned⟩) _
  · refine andThen_cases (P := Tidy) hdrop fun mutation => ?_
    exact hdrop.logged _

theorem evictUntil_tidy {requiredBytes : ℤ} {requestId : String} {futureUses : List FutureRadixUse} {reason : String}
    (fuel : ℕ) : ∀ {a : RollingRadixAllocator} (cursor : ℚ), Tidy a →
      Tidy (evictUntil digest config requiredBytes requestId paths futureUses reason fuel a cursor).1 := by
  induction fuel with
  | zero =>
    intro a cursor ha
    rw [evictUntil]
    split_ifs <;> exact ha
  | succ fuel ih =>
    intro a cursor ha
    rw [evictUntil]
    split_ifs
    · exact ha
    refine andThen_cases (P := Tidy) ha fun candidates => andThen_cases (P := Tidy) ha fun chosen => ?_
    cases chosen with
    | none => exact ha
    | some chosen =>
      have hevict := evict_tidy config ha chosen.1 chosen.2 cursor requestId reason
      exact andThen_cases (P := Tidy) hevict fun cursor => ih cursor hevict

theorem ensureCapacity_tidy (digest : List ℤ → String) (config : RollingConfig) (paths : List (List ℤ))
    (ha : Tidy a) (requiredBytes : ℤ) (nowMs : ℚ) (requestId : String)
    (futureUses : List FutureRadixUse) (reason : String) :
    Tidy (a.ensureCapacity digest config requiredBytes nowMs requestId paths futureUses reason).1 := by
  unfold ensureCapacity
  split_ifs
  · exact ha
  · exact ha
  refine andThen_cases (P := Tidy) ha fun candidates => ?_
  simp only
  split_ifs
  · exact ha
  · exact evictUntil_tidy _ nowMs ha

theorem restore_tidy (ha : Tidy a) (requestId : String) (prompt : List ℤ) (tokens : ℕ) (readyMs : ℚ) :
    Tidy (a.restore config requestId prompt tokens readyMs).1 := by
  have hrestore : Tidy (a.onRadix (a.radix.restorePrefix prompt tokens)).1 :=
    .onRadix (restorePrefix_fine ha.sound _ _).sound (restorePrefix_unsigned ha.unsigned _ _)
  refine andThen_cases (P := Tidy) hrestore fun mutation => ?_
  exact Tidy.logged (by exact ⟨hrestore.sound,hrestore.unsigned⟩) _

theorem admit_tidy (digest : List ℤ → String) (config : RollingConfig) (ha : Tidy a)
    (requestId : String) (prompt : List ℤ) (nowMs : ℚ) (futureUses : List FutureRadixUse) :
    Tidy (a.admitRequest digest config requestId prompt nowMs futureUses).1 := by
  have hmatch {c : RollingRadixAllocator} (hc : Tidy c) (touch : Bool) :
      Tidy (c.onRadix (c.radix.matchPrompt prompt touch)).1 :=
    .onRadix (matchPrompt_fine hc.sound _ _).sound (matchPrompt_unsigned hc.unsigned _ _)
  have hlock {c : RollingRadixAllocator} (hc : Tidy c) (count : ℤ) :
      Tidy (c.onRadix (c.radix.lockPrefix requestId prompt count)).1 :=
    .onRadix (lockPrefix_fine hc.sound _ _ _).sound (lockPrefix_unsigned hc.unsigned _ _ _)
  unfold admitRequest
  split_ifs
  · exact ha
  · exact ha
  refine andThen_cases (P := Tidy) (hmatch ha false) fun matched => ?_
  have hroom := ensureCapacity_tidy digest config [prompt.take matched.logicalHitTokens] (hmatch ha false)
    (matched.restoreTokens * config.bytesPerToken) nowMs requestId
    futureUses "admission_restore"
  refine andThen_cases (P := Tidy) hroom fun readyMs => ?_
  generalize (ensureCapacity _ _ _ _ _ _ _ _ _).1 = b at hroom ⊢
  have hrestored : Tidy (if matched.restoreTokens ≠ 0 then
      b.restore config requestId prompt matched.logicalHitTokens readyMs else (b,.ok readyMs)).1 := by
    split_ifs
    · exact restore_tidy hroom _ _ _ _
    · exact hroom
  refine andThen_cases (P := Tidy) hrestored fun readyMs => ?_
  refine andThen_cases (P := Tidy) (hlock hrestored _) fun _ => ?_
  refine andThen_cases (P := Tidy) (hmatch (hlock hrestored _) true) fun _ => ?_
  exact andThen_cases (P := Tidy) (hmatch (hlock hrestored _) true) fun _ => hmatch (hlock hrestored _) true

theorem materializeEach_tidy (config : RollingConfig) (readyMs : ℚ) (reason : String)
    (requestPaths : List (String × List ℤ)) :
    ∀ {a : RollingRadixAllocator} (growth : Dict String ℤ), Tidy a →
      (∀ request ∈ requestPaths, ∀ x ∈ request.2, 0 ≤ x ∧ x < 2 ^ 64) →
      Tidy (materializeEach config readyMs reason a growth requestPaths).1 := by
  induction requestPaths with
  | nil => exact fun _ ha _ => ha
  | cons request rest ih =>
    intro a growth ha hpaths
    obtain ⟨hpath,hrest⟩ := List.forall_mem_cons.mp hpaths
    have hgrown : Tidy (a.onRadix (a.radix.extendRequestGpu request.1 request.2 true)).1 :=
      .onRadix (extendRequestGpu_fine ha.sound _ _ _).sound (extendRequestGpu_unsigned ha.unsigned _ hpath)
    rw [materializeEach]
    refine andThen_cases (P := Tidy) hgrown fun mutation => ?_
    generalize (a.onRadix (a.radix.extendRequestGpu request.1 request.2 true)).1 = b at hgrown ⊢
    have hlog : Tidy (if mutation.gpuDeltaTokens ≠ 0 ∨ mutation.recomputedCpuTokens ≠ 0 then
        b.appendEvent config readyMs readyMs .materialize reason (some request.1) none mutation 0
          (a.hbmOccupiedBytes config) (a.hostOccupiedBytes config) else (b,.ok ())).1 := by
      split_ifs
      · exact hgrown.appendEvent config _ _ _ _ _ _ _ _ _ _
      · exact hgrown
    exact andThen_cases (P := Tidy) hlog fun _ => ih _ hlog hrest

/-- The paths of a batch were validated before. -/
def RollingCall.Validated : RollingCall → Prop
  | .materializeBatch requestPaths .. => ∀ request ∈ requestPaths, ∀ x ∈ request.2, 0 ≤ x ∧ x < 2 ^ 64
  | .admitRequest .. | .completeRequest .. | .prepareHost .. => True

theorem materializeBatch_tidy (digest : List ℤ → String) (config : RollingConfig) (ha : Tidy a)
    {requestPaths : List (String × List ℤ)}
    (hpaths : ∀ request ∈ requestPaths, ∀ x ∈ request.2, 0 ≤ x ∧ x < 2 ^ 64) (nowMs : ℚ)
    (futureUses : List FutureRadixUse) (reason : String) :
    Tidy (a.materializeBatch digest config requestPaths nowMs futureUses reason).1 := by
  unfold materializeBatch
  split_ifs
  · exact ha
  · exact ha
  refine andThen_cases (P := Tidy) ha fun tokens => ?_
  have hroom := ensureCapacity_tidy digest config (requestPaths.map Prod.snd) ha
    (tokens * config.bytesPerToken) nowMs (String.intercalate "," (requestPaths.map Prod.fst)) futureUses reason
  refine andThen_cases (P := Tidy) hroom fun readyMs => ?_
  have heach := materializeEach_tidy config readyMs reason requestPaths ∅ hroom hpaths
  exact andThen_cases (P := Tidy) heach fun growth => andThen_cases (P := Tidy) heach fun _ => heach

theorem completeRequest_tidy (ha : Tidy a) (requestId contextId : String) (finalPath : List ℤ) :
    Tidy (a.completeRequest requestId contextId finalPath).1 := by
  refine andThen_cases (P := Tidy) ha fun missing => ?_
  split_ifs
  · exact ha
  have hbound : Tidy (a.onRadix (a.radix.bindContext contextId finalPath)).1 :=
    .onRadix (bindContext_fine ha.sound _ _).sound (bindContext_unsigned ha.unsigned _ _)
  refine andThen_cases (P := Tidy) hbound fun _ => ?_
  exact .onRadix (unlockRequest_fine hbound.sound _).sound (unlockRequest_unsigned hbound.unsigned _)

theorem prepareHost_tidy (config : RollingConfig) (ha : Tidy a) (rootPath : List ℤ) (nowMs : ℚ) (reason : String) :
    Tidy (a.prepareHost config rootPath nowMs reason).1 := by
  refine andThen_cases (P := Tidy) ha fun missing => ?_
  simp only
  split_ifs
  · exact ha
  have hprepared : Tidy (a.onRadix (a.radix.prepareHost rootPath)).1 :=
    .onRadix (prepareHost_fine ha.sound _).sound (prepareHost_unsigned ha.unsigned _)
  refine andThen_cases (P := Tidy) hprepared fun mutation => ?_
  exact Tidy.logged (by exact ⟨hprepared.sound,hprepared.unsigned⟩) _

theorem call_tidy (ha : Tidy a) {c : RollingCall} (hc : c.Validated) : Tidy (a.call digest config c).1 := by
  cases c with
  | admitRequest requestId prompt nowMs futureUses =>
    have hcall := admit_tidy digest config ha requestId prompt nowMs futureUses
    exact andThen_cases (P := Tidy) hcall fun _ => hcall
  | materializeBatch requestPaths nowMs futureUses reason =>
    have hcall := materializeBatch_tidy digest config ha hc nowMs futureUses reason
    exact andThen_cases (P := Tidy) hcall fun _ => hcall
  | completeRequest requestId contextId finalPath => exact completeRequest_tidy ha requestId contextId finalPath
  | prepareHost rootPath nowMs reason =>
    have hcall := prepareHost_tidy config ha rootPath nowMs reason
    exact andThen_cases (P := Tidy) hcall fun _ => hcall

theorem run_tidy (calls : List RollingCall) : ∀ {a : RollingRadixAllocator}, Tidy a → (∀ c ∈ calls, c.Validated) →
    Tidy (run digest config a calls) := by
  induction calls with
  | nil => exact fun ha _ => ha
  | cons c calls ih =>
    intro a ha hcalls
    obtain ⟨hc,hrest⟩ := List.forall_mem_cons.mp hcalls
    exact ih (call_tidy ha hc) hrest

theorem new_tidy (config : RollingConfig) : Tidy (new config) := by
  refine ⟨unchecked_sound,fun i x c hc => ?_⟩
  unfold Child at hc
  change (∅ : Dict ℤ ℕ)[x]? = some c at hc
  simp at hc

/-! ## Evictions -/

/-- Evictions raise exactly when all that could be taken does not make the room; then nothing has changed. When
they return, the room is there, and the protected paths are in the tiers where they were. -/
structure Thorough (config : RollingConfig) (a : RollingRadixAllocator) (paths : List (List ℤ)) (requiredBytes : ℕ)
    (outcome : RollingRadixAllocator × Except RollingRaised ℚ) : Prop where
  raises : (∃ e, outcome.2 = .error e) ↔ a.hbmAvailableBytes config + freeBytes config a paths < requiredBytes
  atomic : ∀ e, outcome.2 = .error e → outcome.1 = a
  room : ∀ endMs, outcome.2 = .ok endMs → requiredBytes ≤ outcome.1.hbmAvailableBytes config
  sheltered : ∀ endMs, outcome.2 = .ok endMs → Sheltered a.radix outcome.1.radix paths

/-- After any calls with validated paths, the evictions are thorough exactly when the bytes that are asked for do
not lie between what the bundles of the state have and what could be taken: the roots of the bundles that a
protected path leads into hide what is below them. -/
theorem evictions_thorough_iff (digest : List ℤ → String) (config : RollingConfig) (calls : List RollingCall)
    (hcalls : ∀ c ∈ calls, c.Validated) (paths : List (List ℤ)) (requiredBytes : ℕ) (nowMs : ℚ) (requestId : String)
    (futureUses : List FutureRadixUse) (reason : String) :
    Thorough config (run digest config (new config) calls) paths requiredBytes
      ((run digest config (new config) calls).ensureCapacity digest config requiredBytes nowMs requestId paths
        futureUses reason) ↔
      ¬ ((run digest config (new config) calls).hbmAvailableBytes config +
            offeredBytes config (run digest config (new config) calls) paths < requiredBytes ∧
          requiredBytes ≤ (run digest config (new config) calls).hbmAvailableBytes config +
            freeBytes config (run digest config (new config) calls) paths) := by
  have ha : Tidy (run digest config (new config) calls) := run_tidy calls (new_tidy config) hcalls
  generalize run digest config (new config) calls = a at ha ⊢
  obtain ⟨hshort,henough⟩ := ensureCapacity_spec digest config paths ha requiredBytes
    nowMs requestId futureUses reason
  have hle := offeredBytes_le config paths ha
  by_cases hoffered : a.hbmAvailableBytes config + offeredBytes config a paths < requiredBytes
  · rw [hshort hoffered]
    constructor
    · rintro ⟨hraises,-,-,-⟩ ⟨-,hfree⟩
      exact absurd (hraises.mp ⟨_,rfl⟩) (not_lt.mpr hfree)
    · intro hhidden
      have hfree := not_le.mp fun h => hhidden ⟨hoffered,h⟩
      exact ⟨⟨fun _ => hfree,fun _ => ⟨_,rfl⟩⟩,fun _ _ => rfl,fun _ h => (by cases h),fun _ h => (by cases h)⟩
  · obtain ⟨b,endMs,hcall,hroom,hsheltered⟩ := henough (not_lt.mp hoffered)
    rw [hcall]
    refine ⟨fun _ h => hoffered h.1,fun _ => ⟨⟨?_,fun h => absurd h ?_⟩,fun _ h => (by cases h),?_,?_⟩⟩
    · rintro ⟨e,he⟩
      cases he
    · omega
    · exact fun _ _ => hroom
    · exact fun _ _ => hsheltered

/-- Room for four tokens on the GPU. -/
def fourTokens : RollingConfig where
  hbmCapacityBytes := 4
  hbmFixedBytes := 0
  hostCapacityBytes := 64
  bytesPerToken := 1
  d2hBytesPerMs := 10
  h2dBytesPerMs := 10
  transferSetupMs := 7
  capacity_pos := by decide
  token_pos := by decide
  fixed_le := by decide
  d2h_pos := by norm_num
  h2d_pos := by norm_num
  setup_nonneg := by norm_num

/-- One request leaves a chain of four tokens. -/
def chainCalls : List RollingCall :=
  [.admitRequest "chain" [1,2,3,4,9] 0 [],.materializeBatch [("chain",[1,2,3,4])] 0 [] "progress",
    .completeRequest "chain" "context" [1,2,3,4]]

theorem chainCalls_validated : ∀ c ∈ chainCalls, c.Validated := by
  intro c hc
  simp only [chainCalls,List.mem_cons,List.not_mem_nil,or_false] at hc
  obtain rfl | rfl | rfl := hc
  · trivial
  · unfold RollingCall.Validated
    decide
  · trivial

def chained : RollingRadixAllocator := run (fun _ => "") fourTokens (new fourTokens) chainCalls

theorem chained_facts : chained.hbmAvailableBytes fourTokens = 0 ∧ offeredBytes fourTokens chained [[1,2]] = 1 ∧
    freeBytes fourTokens chained [[1,2]] = 2 := by decide +kernel

/-- Any room for one token is found. -/
theorem chained_thorough : Thorough fourTokens (run (fun _ => "") fourTokens (new fourTokens) chainCalls) [[1,2]] 1
    ((run (fun _ => "") fourTokens (new fourTokens) chainCalls).ensureCapacity (fun _ => "") fourTokens 1 0 "next"
      [[1,2]] [] "progress") := by
  refine (evictions_thorough_iff (fun _ => "") fourTokens chainCalls chainCalls_validated [[1,2]] 1 0 "next" []
    "progress").mpr ?_
  rintro ⟨hoffered,-⟩
  obtain ⟨havailable,hone,-⟩ := chained_facts
  change chained.hbmAvailableBytes fourTokens + offeredBytes fourTokens chained [[1,2]] < _ at hoffered
  rw [havailable,hone] at hoffered
  exact absurd hoffered (by decide)

/-- The third token of the chain is hidden behind the protected ones: room for two tokens is refused. -/
theorem hidden_suffix_refused : ¬ Thorough fourTokens chained [[1,2]] 2
    (chained.ensureCapacity (fun _ => "") fourTokens (2 : ℕ) 0 "next" [[1,2]] [] "progress") := by
  obtain ⟨havailable,hone,htwo⟩ := chained_facts
  have ha : Tidy chained := run_tidy chainCalls (new_tidy fourTokens) chainCalls_validated
  have hshort := (ensureCapacity_spec (fun _ => "") fourTokens [[1,2]] ha 2 0 "next" []
    "progress").1 (by rw [havailable,hone]; decide)
  intro hthorough
  have hless := hthorough.raises.mp ⟨_,congrArg Prod.snd hshort⟩
  rw [havailable,htwo] at hless
  exact absurd hless (by decide)

end RollingRadixAllocator
end BeliefKV
