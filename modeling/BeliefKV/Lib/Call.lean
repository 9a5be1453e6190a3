import Mathlib.Logic.Basic
import Mathlib.Data.List.Basic
import Mathlib.Data.List.Forall2

/-! Calls that can raise after they changed the state: the state they leave in either case,
and what they return. -/
namespace BeliefKV.Call
variable {ε σ α β : Type}

/-- One call after another; the second is not made when the first raises. -/
def andThen (call : σ × Except ε α) (next : σ → α → σ × Except ε β) : σ × Except ε β :=
  match call with
  | (s,.ok a) => next s a
  | (s,.error e) => (s,.error e)

@[simp] theorem andThen_ok (s : σ) (a : α) (next : σ → α → σ × Except ε β) :
    andThen (s,.ok a) next = next s a := rfl

@[simp] theorem andThen_error (s : σ) (e : ε) (next : σ → α → σ × Except ε β) :
    andThen (s,.error e) next = (s,.error e) := rfl

theorem andThen_eq_ok {call : σ × Except ε α} {next : σ → α → σ × Except ε β} {u : σ} {b : β} :
    andThen call next = (u,.ok b) ↔ ∃ a, call.2 = .ok a ∧ next call.1 a = (u,.ok b) := by
  obtain ⟨v,result⟩ := call
  cases result with
  | error e =>
    rw [andThen_error]
    constructor
    · intro h
      cases h
    · rintro ⟨a,h,-⟩
      cases h
  | ok a =>
    rw [andThen_ok]
    constructor
    · exact fun h => ⟨a,rfl,h⟩
    · rintro ⟨c,h,hnext⟩
      cases h
      exact hnext

/-- A loop over a list that ends at the first call that raises. -/
def forEach (body : σ → α → σ × Except ε Unit) : σ → List α → σ × Except ε Unit
  | s, [] => (s,.ok ())
  | s, a :: as => andThen (body s a) fun s _ => forEach body s as

/-- A sequence ends where its first call raises or where the second one does. -/
theorem andThen_cases {P : σ → Prop} {call : σ × Except ε α} {next : σ → α → σ × Except ε β}
    (hcall : P call.1) (hnext : ∀ a, P (next call.1 a).1) : P (andThen call next).1 := by
  obtain ⟨t,result⟩ := call
  cases result with
  | error e => exact hcall
  | ok a => exact hnext a

/-- What both calls carry on, their sequence does. -/
theorem andThen_rel {R : σ → σ → Prop} (htrans : ∀ {s t u}, R s t → R t u → R s u) {s : σ}
    {call : σ × Except ε α} {next : σ → α → σ × Except ε β} (hcall : R s call.1)
    (hnext : ∀ a, call.2 = .ok a → R call.1 (next call.1 a).1) : R s (andThen call next).1 := by
  obtain ⟨t,result⟩ := call
  cases result with
  | error e => exact hcall
  | ok a => exact htrans hcall (hnext a rfl)

/-- What every round of a loop carries on, the loop does. -/
theorem forEach_rel {R : σ → σ → Prop} (hrefl : ∀ s, R s s)
    (htrans : ∀ {s t u}, R s t → R t u → R s u) {body : σ → α → σ × Except ε Unit} {as : List α}
    (hbody : ∀ s, ∀ a ∈ as, R s (body s a).1) (s : σ) : R s (forEach body s as).1 := by
  induction as generalizing s with
  | nil => exact hrefl s
  | cons a as ih =>
    rw [forEach]
    refine andThen_rel (R := R) htrans (hbody s a (by simp)) fun u _ => ?_
    exact ih (fun t b hb => hbody t b (by simp [hb])) (body s a).1

/-- A loop whose rounds keep an invariant and return does so too. -/
theorem forEach_ok {I : σ → Prop} {body : σ → α → σ × Except ε Unit} {as : List α}
    (hbody : ∀ s, ∀ a ∈ as, I s → I (body s a).1 ∧ (body s a).2 = .ok ()) {s : σ} (hs : I s) :
    I (forEach body s as).1 ∧ (forEach body s as).2 = .ok () := by
  induction as generalizing s with
  | nil => exact ⟨hs,rfl⟩
  | cons a as ih =>
    obtain ⟨hi,hok⟩ := hbody s a (by simp) hs
    have hrest := ih (fun t b hb => hbody t b (by simp [hb])) hi
    rw [forEach,show body s a = ((body s a).1,.ok ()) from Prod.ext rfl hok,andThen_ok]
    exact hrest

/-- The results of the calls for a list, up to the first one that raises. -/
def mapCalls (body : σ → α → σ × Except ε β) : σ → List α → σ × Except ε (List β)
  | s, [] => (s,.ok [])
  | s, a :: as =>
    andThen (body s a) fun s b =>
    andThen (mapCalls body s as) fun s bs => (s,.ok (b :: bs))

/-- Calls that keep an invariant have results of which each is right for its member of the list. -/
theorem mapCalls_ok {I : σ → Prop} {R : α → β → Prop} {body : σ → α → σ × Except ε β} {as : List α}
    (hbody : ∀ s, ∀ a ∈ as, I s → I (body s a).1 ∧ ∀ b, (body s a).2 = .ok b → R a b) {s : σ} (hs : I s) :
    I (mapCalls body s as).1 ∧ ∀ bs, (mapCalls body s as).2 = .ok bs → List.Forall₂ R as bs := by
  induction as generalizing s with
  | nil =>
    refine ⟨hs,fun bs h => ?_⟩
    cases h
    exact .nil
  | cons a as ih =>
    obtain ⟨hfirst,hright⟩ := hbody s a List.mem_cons_self hs
    obtain ⟨hrest,hrights⟩ := ih (fun t b hb => hbody t b (List.mem_cons_of_mem a hb)) hfirst
    constructor
    · rw [mapCalls]
      exact andThen_cases hfirst fun b => andThen_cases hrest fun bs => hrest
    · intro bs h
      generalize hall : mapCalls body s (a :: as) = all at h
      obtain ⟨t,r⟩ := all
      obtain rfl : r = .ok bs := h
      obtain ⟨b,hb,h⟩ := andThen_eq_ok.mp hall
      obtain ⟨rest,hrest,h⟩ := andThen_eq_ok.mp h
      cases h
      exact .cons (hright b hb) (hrights rest hrest)

theorem forall₂_mem_left {R : α → β → Prop} {as : List α} {bs : List β} (h : List.Forall₂ R as bs) {a : α}
    (ha : a ∈ as) : ∃ b ∈ bs, R a b := by
  induction h with
  | nil => exact absurd ha List.not_mem_nil
  | cons hfirst _ ih =>
    obtain rfl | ha := List.mem_cons.mp ha
    · exact ⟨_,List.mem_cons_self,hfirst⟩
    · obtain ⟨b,hb,h⟩ := ih ha
      exact ⟨b,List.mem_cons_of_mem _ hb,h⟩

theorem forall₂_mem_right {R : α → β → Prop} {as : List α} {bs : List β} (h : List.Forall₂ R as bs) {b : β}
    (hb : b ∈ bs) : ∃ a ∈ as, R a b := by
  have hflip : List.Forall₂ (flip R) bs as := .flip h
  exact forall₂_mem_left hflip hb

end BeliefKV.Call
