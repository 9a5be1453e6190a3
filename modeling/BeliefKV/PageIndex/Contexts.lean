import BeliefKV.PageIndex.OnePage

/-! The contexts an index has entered. Only `registerContext` and `updateContextEpoch` write
their epochs and workflows. -/
namespace BeliefKV.PageOwnershipIndex
variable {s s' : PageOwnershipIndex} {h : PageHandle} {c : String}

/-- The epochs and the workflows of the contexts. -/
def registry (s : PageOwnershipIndex) : Dict String ℤ × Dict String String :=
  (s.contextEpoch,s.contextWorkflow)

theorem registry_unbindContext (c : String) : (s.unbindContext c).registry = s.registry := by
  simp only [unbindContext]
  split_ifs <;> rfl

theorem registry_unbindAll (cs : List String) :
    (cs.foldl (·.unbindContext ·) s).registry = s.registry := by
  induction cs generalizing s with
  | nil => rfl
  | cons c cs ih => exact ih.trans (registry_unbindContext c)

theorem registry_freePage (hok : s.freePage h = .ok s') : s'.registry = s.registry := by
  obtain ⟨p,-,-,-,-,rfl⟩ := freePage_eq_ok.mp hok
  rfl

theorem registry_beginTransfer {dir : TransferDirection} (hok : s.beginTransfer h dir = .ok s') :
    s'.registry = s.registry := by
  obtain ⟨p,-,-,-,rfl⟩ := beginTransfer_eq_ok.mp hok
  rfl

theorem registry_completeTransfer {dir : TransferDirection} {keepGpu : Bool}
    (hok : s.completeTransfer h dir keepGpu = .ok s') : s'.registry = s.registry := by
  obtain ⟨p,-,-,rfl⟩ := completeTransfer_eq_ok.mp hok
  rfl

theorem registry_abortTransfer (hok : s.abortTransfer h = .ok s') : s'.registry = s.registry := by
  obtain ⟨p,dir,-,-,rfl⟩ := abortTransfer_eq_ok.mp hok
  rfl

theorem registry_commitCpu (hok : s.commitCpu h = .ok s') : s'.registry = s.registry := by
  obtain ⟨p,-,⟨-,rfl⟩ | ⟨-,rfl⟩⟩ := commitCpu_eq_ok.mp hok <;> rfl

theorem registry_dropPage (hok : s.dropPage h = .ok s') : s'.registry = s.registry := by
  obtain ⟨p,-,-,⟨-,rfl⟩ | ⟨-,hfree⟩⟩ := dropPage_eq_ok.mp hok
  · rfl
  · exact registry_freePage hfree

theorem registry_dropHostCopy (hok : s.dropHostCopy h = .ok s') : s'.registry = s.registry := by
  obtain ⟨p,-,-,⟨-,rfl⟩ | ⟨-,hfree⟩⟩ := dropHostCopy_eq_ok.mp hok
  · rfl
  · exact registry_freePage hfree

/-- The call neither enters a context nor moves one. -/
def Op.Unlisted : Op → Prop
  | .registerContext .. | .updateContextEpoch .. => False
  | _ => True

theorem Op.Unlisted.registry {op : Op} (hop : op.Unlisted) (hok : op.apply s = .ok s') :
    s'.registry = s.registry := by
  cases op with
  | registerContext => exact hop.elim
  | updateContextEpoch => exact hop.elim
  | beginTransfer => exact registry_beginTransfer hok
  | completeTransfer => exact registry_completeTransfer hok
  | abortTransfer => exact registry_abortTransfer hok
  | registerPage =>
    simp only [Op.apply,PageOwnershipIndex.registerPage] at hok
    split_ifs at hok
    obtain ⟨-,-,hok⟩ := bind_eq_ok.mp hok
    cases hok
    rfl
  | bindPages c e hs replace =>
    obtain ⟨-,-,hok⟩ := bind_eq_ok.mp hok
    obtain ⟨resolved,-,hok⟩ := bind_eq_ok.mp hok
    cases replace
    all_goals
      simp only [Bool.false_eq_true,if_true,if_false] at hok
      split_ifs at hok
    all_goals cases hok
    all_goals first | rfl | exact registry_unbindContext c
  | unbindContext c =>
    cases hok
    exact registry_unbindContext c
  | freePage => exact registry_freePage hok
  | invalidatePage k =>
    obtain ⟨p,hp,hok⟩ := bind_eq_ok.mp hok
    split_ifs at hok
    cases hok
    rfl
  | setParent k parent =>
    obtain ⟨p,hp,hok⟩ := bind_eq_ok.mp hok
    by_cases hself : parent = some k
    · rw [if_pos hself] at hok
      cases hok
    rw [if_neg hself] at hok
    obtain ⟨-,-,hok⟩ := bind_eq_ok.mp hok
    obtain ⟨-,-,hok⟩ := bind_eq_ok.mp hok
    by_cases hsame : p.parent = parent
    · rw [if_pos hsame] at hok
      cases parent with
      | none => cases hok; rfl
      | some q =>
        simp only at hok
        split_ifs at hok <;> · cases hok; rfl
    · rw [if_neg hsame] at hok
      cases hok
      rfl
  | setEngineLock k value =>
    simp only [Op.apply,PageOwnershipIndex.setEngineLock] at hok
    split_ifs at hok
    obtain ⟨p,hp,hok⟩ := bind_eq_ok.mp hok
    split_ifs at hok <;> · cases hok; rfl
  | setActiveReaders k value =>
    simp only [Op.apply,PageOwnershipIndex.setActiveReaders] at hok
    split_ifs at hok
    obtain ⟨p,hp,hok⟩ := bind_eq_ok.mp hok
    split_ifs at hok <;> · cases hok; rfl
  | pinContext c =>
    cases hok
    simp only [PageOwnershipIndex.pinContext]
    split_ifs <;> rfl
  | unpinContext c =>
    cases hok
    simp only [PageOwnershipIndex.unpinContext]
    split_ifs <;> rfl
  | updateRuntimeState k res depth lock access =>
    obtain ⟨p,hp,hok⟩ := bind_eq_ok.mp hok
    split_ifs at hok
    cases hok
    split_ifs <;> rfl
  | commitCpu => exact registry_commitCpu hok
  | dropPage => exact registry_dropPage hok
  | dropHostCopy => exact registry_dropHostCopy hok
  | readPhysical =>
    cases hok
    unfold refreshPhysical
    split_ifs <;> rfl

/-- A context can be entered when it is new and the ids are not empty. -/
theorem registerContext_new {w : String} {e : ℤ} (hc : c ≠ "") (hw : w ≠ "")
    (hepoch : s.contextEpoch[c]? = none) (hflow : s.contextWorkflow[c]? = none) :
    s.registerContext c w e = .ok ((s.enrollContext c w e).touch false ∅ {c} {.context}) := by
  simp [registerContext,hc,hw,hepoch,hflow]

/-- The epoch of a known context can be moved on. -/
theorem updateContextEpoch_later {e cur : ℤ} (hcur : s.contextEpoch[c]? = some cur) (hlt : cur < e) :
    s.updateContextEpoch c e =
      .ok ((s.advanceEpoch c e).touch false (s.pagesOf c) {c} {.context,.owner}) := by
  have hread : s.contextEpochOf c = .ok cur := by simp [contextEpochOf,hcur]
  rw [updateContextEpoch,hread]
  change (if e < cur then _ else _) = _
  rw [if_neg (by omega),if_pos (by omega)]

end BeliefKV.PageOwnershipIndex
