import BeliefKV.PageIndex.Preservation

/-! When the transfer and drop calls return, and what they do to the records. -/
namespace BeliefKV.PageOwnershipIndex

/-- The residency a transfer starts from and falls back to. -/
def departure : TransferDirection → PhysicalResidency
  | .d2h => .gpuOnly
  | .h2d => .cpuOnly

/-- The residency of a page in transfer. -/
def underway : TransferDirection → PhysicalResidency
  | .d2h => .mirroring
  | .h2d => .prefetching

/-- The residency a completed transfer ends in. -/
def arrival (direction : TransferDirection) (keepGpu : Bool) : PhysicalResidency :=
  if direction = .d2h ∧ keepGpu = false then .cpuOnly else .dualClean

section Specs
variable {s s' : PageOwnershipIndex} {h : PageHandle}

theorem beginTransfer_eq_ok {dir : TransferDirection} : s.beginTransfer h dir = .ok s' ↔
    ∃ p, s.requirePage h = .ok p ∧ p.transferDirection = none ∧ p.residency = departure dir ∧
      s' = s.moveResidency h p (underway dir) (some dir) {.residency,.transfer} := by
  unfold beginTransfer
  rw [bind_eq_ok]
  refine exists_congr fun p => and_congr_right fun _ => ?_
  by_cases hidle : p.transferDirection = none
  · cases dir <;> cases hres : p.residency <;>
      simp [PhysicalPageRecord.transferIdle,hidle,departure,underway,eq_comm]
  · simp [PhysicalPageRecord.transferIdle,hidle]

theorem completeTransfer_eq_ok {dir : TransferDirection} {keepGpu : Bool} :
    s.completeTransfer h dir keepGpu = .ok s' ↔
      ∃ p, s.requirePage h = .ok p ∧ p.transferDirection = some dir ∧
        s' = s.moveResidency h p (arrival dir keepGpu) none {.residency,.transfer} := by
  unfold completeTransfer
  rw [bind_eq_ok]
  refine exists_congr fun p => and_congr_right fun _ => ?_
  by_cases hdir : p.transferDirection = some dir
  · cases dir <;> cases keepGpu <;> simp [hdir,arrival,eq_comm]
  · simp [hdir]

theorem abortTransfer_eq_ok : s.abortTransfer h = .ok s' ↔
    ∃ p dir, s.requirePage h = .ok p ∧ p.transferDirection = some dir ∧
      s' = s.moveResidency h p (departure dir) none {.residency,.transfer} := by
  unfold abortTransfer
  rw [bind_eq_ok]
  refine exists_congr fun p => ?_
  cases hdir : p.transferDirection with
  | none => simp
  | some dir => cases dir <;> simp [departure,eq_comm]

theorem commitCpu_eq_ok : s.commitCpu h = .ok s' ↔
    ∃ p, s.requirePage h = .ok p ∧ (p.residency = .cpuOnly ∧ s' = s ∨
      p.residency = .dualClean ∧
        s' = s.moveResidency h p .cpuOnly p.transferDirection {.residency}) := by
  unfold commitCpu
  rw [bind_eq_ok]
  refine exists_congr fun p => and_congr_right fun _ => ?_
  by_cases hc : p.residency = .cpuOnly
  · simp [hc,eq_comm]
  · by_cases hd : p.residency = .dualClean <;> simp [hc,hd,eq_comm]

theorem freePage_eq_ok : s.freePage h = .ok s' ↔
    ∃ p, s.requirePage h = .ok p ∧ p.engineLockRef = 0 ∧ p.activeReaderCount = 0 ∧ p.transferIdle ∧
      s' = s.retirePage h p false := by
  unfold freePage
  rw [bind_eq_ok]
  refine exists_congr fun p => and_congr_right fun _ => ?_
  by_cases hl : p.engineLockRef = 0 <;> by_cases hr : p.activeReaderCount = 0 <;>
    cases hi : p.transferIdle <;> simp [hl,hr,eq_comm]

theorem dropPage_eq_ok : s.dropPage h = .ok s' ↔
    ∃ p, s.requirePage h = .ok p ∧ p.transferIdle ∧
      (p.residency = .dualClean ∧
          s' = s.moveResidency h p .cpuOnly p.transferDirection {.residency} ∨
        (p.residency = .gpuOnly ∨ p.residency = .cpuOnly) ∧ s.freePage h = .ok s') := by
  unfold dropPage
  rw [bind_eq_ok]
  refine exists_congr fun p => and_congr_right fun _ => ?_
  cases hi : p.transferIdle <;> cases hres : p.residency <;> simp [eq_comm]

theorem dropHostCopy_eq_ok : s.dropHostCopy h = .ok s' ↔
    ∃ p, s.requirePage h = .ok p ∧ p.transferIdle ∧
      (p.residency = .dualClean ∧
          s' = s.moveResidency h p .gpuOnly p.transferDirection {.residency} ∨
        p.residency = .cpuOnly ∧ s.freePage h = .ok s') := by
  unfold dropHostCopy
  rw [bind_eq_ok]
  refine exists_congr fun p => and_congr_right fun _ => ?_
  cases hi : p.transferIdle <;> cases hres : p.residency <;> simp [eq_comm]

theorem get_moveResidency (p : PhysicalPageRecord) (res : PhysicalResidency)
    (dir : Option TransferDirection) (ks : Finset Component) (k : PageHandle) :
    (s.moveResidency h p res dir ks).pages[k]? = if k = h then
      s.pages[h]?.map fun q => { q with residency := res, transferDirection := dir }
      else s.pages[k]? := by
  unfold moveResidency
  rw [touch_pages,get_updatePages]
  by_cases hk : k = h
  · simp [hk]
  · simp [hk]

/-- A live record of a consistent index is found by its handle. -/
theorem Linked.requirePage_ok (hl : s.Linked) {p : PhysicalPageRecord} (hp : s.pages[h]? = some p)
    (hlive : p.residency ≠ .dead) : s.requirePage h = .ok p := by
  refine requirePage_eq_ok.mpr ⟨hp,hlive,fun g hg => ?_⟩
  rw [hl.live_latest h p hp hlive] at hg
  exact (Option.some.inj hg).symm

end Specs
end BeliefKV.PageOwnershipIndex
