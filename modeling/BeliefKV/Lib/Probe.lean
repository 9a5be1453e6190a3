import Mathlib.Tactic.Common

/-! A search for the greatest accepted length. Each probe tries one length between two bounds and narrows
them; how the next length is picked is a parameter. -/
namespace BeliefKV.Probe

/-- The lengths that are still open. -/
structure Bounds where
  low : ℕ
  high : ℕ

variable (accepts : ℕ → Bool) (pick : ℕ → Bounds → ℕ)

/-- No length is open. -/
def Bounds.Closed (b : Bounds) : Prop := b.high < b.low

instance (b : Bounds) : Decidable b.Closed := inferInstanceAs (Decidable (_ < _))

/-- The number of open lengths. -/
def Bounds.size (b : Bounds) : ℕ := b.high + 1 - b.low

def Bounds.narrow (b : Bounds) (k : ℕ) : Bounds :=
  if accepts k then { b with low := k + 1 } else { b with high := k - 1 }

/-- The bounds after some more probes, of which the first is the `i`-th. -/
def final : ℕ → ℕ → Bounds → Bounds
  | 0, _, b => b
  | fuel + 1, i, b => if b.Closed then b else final fuel (i + 1) (b.narrow accepts (pick i b))

/-- The lengths that these probes try. -/
def tried : ℕ → ℕ → Bounds → List ℕ
  | 0, _, _ => []
  | fuel + 1, i, b =>
    if b.Closed then [] else pick i b :: tried fuel (i + 1) (b.narrow accepts (pick i b))

/-- The picked length is open. -/
def InRange : Prop := ∀ i b, ¬ b.Closed → 0 < b.low → b.low ≤ pick i b ∧ pick i b ≤ b.high

variable {accepts pick}

theorem final_of_closed {b : Bounds} (h : b.Closed) (fuel i : ℕ) : final accepts pick fuel i b = b := by
  cases fuel with
  | zero => rfl
  | succ fuel => rw [final,if_pos h]

theorem Bounds.narrow_size {b : Bounds} {k : ℕ} (hlow : b.low ≤ k) (hhigh : k ≤ b.high) (hpos : 0 < b.low) :
    (b.narrow accepts k).size < b.size := by
  unfold Bounds.narrow Bounds.size
  split_ifs
  · dsimp only
    omega
  · dsimp only
    omega

theorem Bounds.narrow_pos {b : Bounds} (hpos : 0 < b.low) (k : ℕ) : 0 < (b.narrow accepts k).low := by
  unfold Bounds.narrow
  split_ifs
  · exact Nat.succ_pos k
  · exact hpos

/-- The bounds close within a number of probes exactly if no more lengths than that are tried, given time. -/
theorem closed_iff (hpick : InRange pick) {enough : ℕ} : ∀ {b : Bounds} (fuel i : ℕ), 0 < b.low →
    b.size ≤ enough →
      ((final accepts pick fuel i b).Closed ↔ (tried accepts pick enough i b).length ≤ fuel) := by
  induction enough with
  | zero =>
    intro b fuel i hpos hsize
    have hclosed : b.Closed := by
      unfold Bounds.size at hsize
      unfold Bounds.Closed
      omega
    rw [final_of_closed hclosed]
    exact iff_of_true hclosed (Nat.zero_le _)
  | succ enough ih =>
    intro b fuel i hpos hsize
    by_cases hclosed : b.Closed
    · rw [final_of_closed hclosed,tried,if_pos hclosed]
      exact iff_of_true hclosed (Nat.zero_le _)
    rw [tried,if_neg hclosed,List.length_cons]
    cases fuel with
    | zero => exact iff_of_false hclosed (Nat.not_succ_le_zero _)
    | succ fuel =>
      obtain ⟨hlow,hhigh⟩ := hpick i b hclosed hpos
      have hless : (b.narrow accepts (pick i b)).size < b.size := Bounds.narrow_size hlow hhigh hpos
      rw [final,if_neg hclosed,Nat.succ_le_succ_iff]
      apply ih fuel (i + 1) (Bounds.narrow_pos hpos _)
      omega

theorem length_tried_le (fuel : ℕ) : ∀ (i : ℕ) (b : Bounds), (tried accepts pick fuel i b).length ≤ fuel := by
  induction fuel with
  | zero => exact fun _ _ => Nat.le_refl 0
  | succ fuel ih =>
    intro i b
    rw [tried]
    split_ifs
    · exact Nat.zero_le _
    · exact Nat.succ_le_succ (ih _ _)

/-- What the tried lengths say about the bounds. -/
structure Sound (accepts : ℕ → Bool) (n : ℕ) (lengths : List ℕ) (b : Bounds) : Prop where
  pos : 0 < b.low
  width : b.low ≤ b.high + 1
  below : b.high ≤ n
  accepted : ∀ k ∈ lengths, accepts k = true → k < b.low
  rejected : ∀ k ∈ lengths, accepts k = false → b.high < k
  most : b.high = n ∨ (b.high + 1 ∈ lengths ∧ accepts (b.high + 1) = false)

theorem Sound.narrow {n k : ℕ} {lengths : List ℕ} {b : Bounds} (h : Sound accepts n lengths b)
    (hlow : b.low ≤ k) (hhigh : k ≤ b.high) : Sound accepts n (lengths ++ [k]) (b.narrow accepts k) := by
  have hpos := h.pos
  have hbelow := h.below
  unfold Bounds.narrow
  cases hk : accepts k with
  | true =>
    refine ⟨Nat.succ_pos k,Nat.succ_le_succ hhigh,h.below,?_,?_,?_⟩
    · intro m hm hacc
      obtain hm | hm := List.mem_append.mp hm
      · have hlt := h.accepted m hm hacc
        exact Nat.lt_succ_of_lt (Nat.lt_of_lt_of_le hlt hlow)
      · rw [List.mem_singleton.mp hm]
        exact Nat.lt_succ_self k
    · intro m hm hrej
      obtain hm | hm := List.mem_append.mp hm
      · exact h.rejected m hm hrej
      · rw [List.mem_singleton.mp hm,hk] at hrej
        cases hrej
    · exact h.most.imp_right fun hmost => ⟨List.mem_append_left _ hmost.1,hmost.2⟩
  | false =>
    have hpred : k - 1 + 1 = k := by omega
    refine ⟨hpos,?_,?_,?_,?_,.inr ?_⟩
    · change b.low ≤ k - 1 + 1
      omega
    · change k - 1 ≤ n
      omega
    · intro m hm hacc
      obtain hm | hm := List.mem_append.mp hm
      · exact h.accepted m hm hacc
      · rw [List.mem_singleton.mp hm,hk] at hacc
        cases hacc
    · intro m hm hrej
      change k - 1 < m
      obtain hm | hm := List.mem_append.mp hm
      · have hlt := h.rejected m hm hrej
        omega
      · rw [List.mem_singleton.mp hm]
        omega
    · change k - 1 + 1 ∈ _ ∧ accepts (k - 1 + 1) = false
      rw [hpred]
      exact ⟨List.mem_append_right _ (List.mem_singleton_self k),hk⟩

theorem Sound.final (hpick : InRange pick) {n : ℕ} (fuel : ℕ) : ∀ {b : Bounds} {lengths : List ℕ} (i : ℕ),
    Sound accepts n lengths b →
      Sound accepts n (lengths ++ tried accepts pick fuel i b) (final accepts pick fuel i b) := by
  induction fuel with
  | zero =>
    intro b lengths i h
    rw [tried,List.append_nil]
    exact h
  | succ fuel ih =>
    intro b lengths i h
    by_cases hclosed : b.Closed
    · rw [final_of_closed hclosed,tried,if_pos hclosed,List.append_nil]
      exact h
    · obtain ⟨hlow,hhigh⟩ := hpick i b hclosed h.pos
      have hrest := ih (i + 1) (h.narrow hlow hhigh)
      rw [Probe.final,if_neg hclosed,tried,if_neg hclosed]
      rwa [List.append_assoc,List.singleton_append] at hrest

/-- Once the bounds are closed, more time tries nothing more. -/
theorem tried_of_closed {fuel : ℕ} : ∀ {b : Bounds} (more i : ℕ), (final accepts pick fuel i b).Closed →
    tried accepts pick (fuel + more) i b = tried accepts pick fuel i b := by
  induction fuel with
  | zero =>
    intro b more i h
    rw [Nat.zero_add]
    cases more with
    | zero => rfl
    | succ more => exact if_pos h
  | succ fuel ih =>
    intro b more i h
    rw [Nat.succ_add,tried,tried]
    by_cases hclosed : b.Closed
    · rw [if_pos hclosed,if_pos hclosed]
    · rw [final,if_neg hclosed] at h
      rw [if_neg hclosed,if_neg hclosed,ih more (i + 1) h]

/-- The lengths tried until the bounds are closed do not depend on the time. -/
theorem tried_eq (hpick : InRange pick) {fuel enough i : ℕ} {b : Bounds} (hpos : 0 < b.low)
    (hsize : b.size ≤ enough) (h : (final accepts pick fuel i b).Closed) :
    tried accepts pick fuel i b = tried accepts pick enough i b := by
  have henough : (final accepts pick enough i b).Closed :=
    (closed_iff hpick enough i hpos hsize).mpr (length_tried_le enough i b)
  rw [← tried_of_closed enough i h,← tried_of_closed fuel i henough,Nat.add_comm]

/-- Every accepted length is below the closed bounds exactly if no tried length was rejected below an
accepted one. -/
theorem Sound.greatest_iff {n : ℕ} {lengths : List ℕ} {b : Bounds} (h : Sound accepts n lengths b)
    (hclosed : b.Closed) : (∀ k, b.low ≤ k → k ≤ n → accepts k = false) ↔
      ∀ k ∈ lengths, accepts k = false → ∀ m, k < m → m ≤ n → accepts m = false := by
  have hwidth := h.width
  unfold Bounds.Closed at hclosed
  constructor
  · intro hnone k hk hrej m hkm hmn
    have hlt := h.rejected k hk hrej
    apply hnone m _ hmn
    omega
  · intro hlonger k hk hkn
    obtain hmost | hmost := h.most
    · omega
    obtain ⟨hmem,hrej⟩ := hmost
    obtain heq | hlt := Nat.eq_or_lt_of_le hk
    · rwa [← heq,show b.low = b.high + 1 by omega]
    · exact hlonger _ hmem hrej k (by omega) hkn

end BeliefKV.Probe
