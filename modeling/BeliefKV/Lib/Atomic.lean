import BeliefKV.Lib.Call

/-! Loops of calls that each read and write one key of the state: exactly when such a loop, if it
raises, leaves the state as it found it. -/
namespace BeliefKV.Call
variable {ε σ α κ γ : Type}

/-- A call that leaves the state alone when it raises. -/
def attempt (call : σ → α → Except ε σ) (s : σ) (a : α) : σ × Except ε Unit :=
  match call s a with
  | .ok s' => (s',.ok ())
  | .error e => (s,.error e)

/-- Every call is possible in this state, or those before the first that is not change nothing. -/
def Undivided (call : σ → α → Except ε σ) (s : σ) (as : List α) : Prop :=
  (∀ a ∈ as, ∃ s', call s a = .ok s') ∨
    ∃ front a back e, as = front ++ a :: back ∧ (∀ b ∈ front, call s b = .ok s) ∧
      call s a = .error e

/-- Whether a call raises depends on what its key shows, it changes what no other key shows, and
it changes what its own key shows unless it changes nothing. -/
structure Local (call : σ → α → Except ε σ) (key : α → κ) (view : σ → κ → γ) : Prop where
  depends : ∀ {s t a s'}, view t (key a) = view s (key a) → call s a = .ok s' → ∃ t', call t a = .ok t'
  frame : ∀ {s a s' k}, call s a = .ok s' → k ≠ key a → view s' k = view s k
  moves : ∀ {s a s'}, call s a = .ok s' → s' = s ∨ view s' (key a) ≠ view s (key a)

/-- Two calls for one key are one call made twice, and the second changes nothing. -/
def Repeats (call : σ → α → Except ε σ) (key : α → κ) (view : σ → κ → γ) (as : List α) : Prop :=
  as.Pairwise fun a b => key b = key a → b = a ∧ ∀ s s' t, call s a = .ok s' →
    view t (key a) = view s' (key a) → call t a = .ok t

section Loops
variable {call : σ → α → Except ε σ} {key : α → κ} {view : σ → κ → γ} {as : List α} {s s' : σ} {a : α}

theorem attempt_ok (h : call s a = .ok s') : attempt call s a = (s',.ok ()) := by
  rw [attempt,h]

theorem attempt_error {e : ε} (h : call s a = .error e) : attempt call s a = (s,.error e) := by
  rw [attempt,h]

theorem forEach_cons_ok (h : call s a = .ok s') :
    forEach (attempt call) s (a :: as) = forEach (attempt call) s' as := by
  rw [forEach,attempt_ok h,andThen_ok]

theorem forEach_cons_error {e : ε} (h : call s a = .error e) :
    forEach (attempt call) s (a :: as) = (s,.error e) := by
  rw [forEach,attempt_error h,andThen_error]

/-- A call for another key leaves a call possible that was, and a repeated call stays so. -/
theorem Local.possible (hl : Local call key view) {b : α} {u : σ}
    (hr : key b = key a → b = a ∧ ∀ s s' t, call s a = .ok s' →
      view t (key a) = view s' (key a) → call t a = .ok t)
    (ha : call s a = .ok s') (hb : call s b = .ok u) : ∃ u', call s' b = .ok u' := by
  by_cases hk : key b = key a
  · obtain ⟨rfl,hagain⟩ := hr hk
    exact ⟨s',hagain s s' s' ha rfl⟩
  · exact hl.depends (hl.frame ha hk) hb

/-- A loop of calls that are all possible at its start returns. -/
theorem Local.returns (hl : Local call key view) (hr : Repeats call key view as)
    (hall : ∀ a ∈ as, ∃ s', call s a = .ok s') : (forEach (attempt call) s as).2 = .ok () := by
  induction as generalizing s with
  | nil => rfl
  | cons a as ih =>
    obtain ⟨hhead,htail⟩ := List.pairwise_cons.mp hr
    obtain ⟨s',ha⟩ := hall a (by simp)
    rw [forEach_cons_ok ha]
    refine ih htail fun b hb => ?_
    obtain ⟨u,hu⟩ := hall b (by simp [hb])
    exact hl.possible (hhead b hb) ha hu

/-- The calls of a loop that returns were all possible at its start. -/
theorem Local.all_possible (hl : Local call key view) (hr : Repeats call key view as)
    (hok : (forEach (attempt call) s as).2 = .ok ()) : ∀ a ∈ as, ∃ s', call s a = .ok s' := by
  induction as generalizing s with
  | nil => simp
  | cons a as ih =>
    obtain ⟨hhead,htail⟩ := List.pairwise_cons.mp hr
    cases ha : call s a with
    | error e =>
      rw [forEach_cons_error ha] at hok
      cases hok
    | ok s' =>
      rw [forEach_cons_ok ha] at hok
      intro b hb
      rcases List.mem_cons.mp hb with rfl | hb
      · exact ⟨s',ha⟩
      · by_cases hk : key b = key a
        · obtain ⟨rfl,-⟩ := hhead b hb hk
          exact ⟨s',ha⟩
        · obtain ⟨u,hu⟩ := ih htail hok b hb
          exact hl.depends (hl.frame ha hk).symm hu

/-- The rest of a loop keeps what a call showed under its key. -/
theorem Local.keeps (hl : Local call key view)
    (hr : ∀ b ∈ as, key b = key a → b = a ∧ ∀ s s' t, call s a = .ok s' →
      view t (key a) = view s' (key a) → call t a = .ok t)
    (ha : call s a = .ok s') {t : σ} (ht : view t (key a) = view s' (key a)) :
    view (forEach (attempt call) t as).1 (key a) = view s' (key a) := by
  induction as generalizing t with
  | nil => exact ht
  | cons b as ih =>
    have hrest : ∀ c ∈ as, key c = key a → c = a ∧ ∀ s s' t, call s a = .ok s' →
        view t (key a) = view s' (key a) → call t a = .ok t := fun c hc => hr c (by simp [hc])
    cases hb : call t b with
    | error e =>
      rw [forEach_cons_error hb]
      exact ht
    | ok t' =>
      rw [forEach_cons_ok hb]
      refine ih hrest ?_
      by_cases hk : key b = key a
      · obtain ⟨rfl,hagain⟩ := hr b (by simp) hk
        rw [hagain s s' t ha ht] at hb
        cases hb
        exact ht
      · rw [hl.frame hb (Ne.symm hk)]
        exact ht

theorem Undivided.cons (ha : call s a = .ok s) (h : Undivided call s as) :
    Undivided call s (a :: as) := by
  rcases h with hall | ⟨front,b,back,e,rfl,hfront,hb⟩
  · exact .inl (List.forall_mem_cons.mpr ⟨⟨s,ha⟩,hall⟩)
  · exact .inr ⟨a :: front,b,back,e,rfl,List.forall_mem_cons.mpr ⟨ha,hfront⟩,hb⟩

/-- An undivided loop that raises leaves the state as it found it. -/
theorem Undivided.unchanged (hl : Local call key view) (hr : Repeats call key view as)
    (h : Undivided call s as) {e : ε} (he : (forEach (attempt call) s as).2 = .error e) :
    (forEach (attempt call) s as).1 = s := by
  rcases h with hall | ⟨front,a,back,e',rfl,hfront,ha⟩
  · rw [hl.returns hr hall] at he
    cases he
  · clear hr he
    induction front with
    | nil => rw [List.nil_append,forEach_cons_error ha]
    | cons b front ih =>
      rw [List.cons_append,forEach_cons_ok (hfront b (by simp))]
      exact ih fun c hc => hfront c (by simp [hc])

/-- A loop is undivided when it shows the same under every key after it raised. -/
theorem undivided_of_unchanged (hl : Local call key view) (hr : Repeats call key view as)
    (h : ∀ e, (forEach (attempt call) s as).2 = .error e →
      ∀ k, view (forEach (attempt call) s as).1 k = view s k) : Undivided call s as := by
  induction as with
  | nil => exact .inl (by simp)
  | cons a as ih =>
    obtain ⟨hhead,htail⟩ := List.pairwise_cons.mp hr
    cases ha : call s a with
    | error e => exact .inr ⟨[],a,as,e,rfl,by simp,ha⟩
    | ok s' =>
      rw [forEach_cons_ok ha] at h
      rcases hl.moves ha with rfl | hmoved
      · exact (ih htail h).cons ha
      · -- The first change cannot be undone, so the rest of the loop must return.
        cases hrest : (forEach (attempt call) s' as).2 with
        | error e => exact absurd ((hl.keeps hhead ha rfl).symm.trans (h e hrest _)) hmoved
        | ok u =>
          refine .inl (hl.all_possible hr ?_)
          rw [forEach_cons_ok ha,hrest]

/-- Every item can be done, or what comes before the first that cannot is moot. -/
def Whole (can moot : α → Prop) (as : List α) : Prop :=
  (∀ a ∈ as, can a) ∨
    ∃ front a back, as = front ++ a :: back ∧ (∀ b ∈ front, moot b) ∧ ¬ can a

theorem undivided_iff {can moot : α → Prop} (hcan : ∀ a, (∃ s', call s a = .ok s') ↔ can a)
    (hmoot : ∀ a, call s a = .ok s ↔ moot a) : Undivided call s as ↔ Whole can moot as := by
  have hnot (a : α) : (∃ e, call s a = .error e) ↔ ¬ can a := by
    rw [← hcan]
    cases call s a <;> simp
  refine or_congr (forall₂_congr fun a _ => hcan a) ?_
  constructor
  · rintro ⟨front,a,back,e,rfl,hfront,ha⟩
    exact ⟨front,a,back,rfl,fun b hb => (hmoot b).mp (hfront b hb),(hnot a).mp ⟨e,ha⟩⟩
  · rintro ⟨front,a,back,rfl,hfront,ha⟩
    obtain ⟨e,he⟩ := (hnot a).mpr ha
    exact ⟨front,a,back,e,rfl,fun b hb => (hmoot b).mpr (hfront b hb),he⟩

end Loops
end BeliefKV.Call
