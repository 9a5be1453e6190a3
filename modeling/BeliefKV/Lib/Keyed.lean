import Mathlib.Data.List.Basic
import Mathlib.Data.List.Nodup

/-! Lists of records that are found by a key, in the order in which their keys came. A record that is stored under a key that
is there takes the place of the old one. -/
namespace BeliefKV
namespace Keyed
variable {A K : Type} [DecidableEq K] (key : A → K)

def lookup (k : K) (l : List A) : Option A := l.find? fun a => key a = k

def pop (k : K) (l : List A) : List A := l.filter fun a => key a ≠ k

def store (a : A) : List A → List A
  | [] => [a]
  | b :: l => if key b = key a then a :: l else b :: store a l

variable {key} {k k' : K} {l : List A} {a b : A}

theorem lookup_mem (h : lookup key k l = some a) : a ∈ l ∧ key a = k :=
  ⟨List.mem_of_find?_eq_some h,by simpa using List.find?_some h⟩

theorem lookup_eq_none : lookup key k l = none ↔ ∀ a ∈ l, key a ≠ k := by simp [lookup]

theorem mem_pop : a ∈ pop key k l ↔ a ∈ l ∧ key a ≠ k := by simp [pop]

theorem lookup_pop : lookup key k' (pop key k l) = if k' = k then none else lookup key k' l := by
  split_ifs with hsame
  · rw [lookup_eq_none]
    intro a ha
    rw [hsame]
    exact (mem_pop.mp ha).2
  · induction l with
    | nil => rfl
    | cons b l ih =>
      by_cases hb : key b = k
      · have hother : ¬ key b = k' := fun hb' => hsame (hb'.symm.trans hb)
        simpa [pop,lookup,hb,hother,Ne.symm hsame] using ih
      · by_cases hb' : key b = k'
        · simp [pop,lookup,hb',hsame]
        · simpa [pop,lookup,hb,hb'] using ih

theorem lookup_store : lookup key k (store key a l) = if k = key a then some a else lookup key k l := by
  induction l with
  | nil =>
    by_cases hk : k = key a
    · simp [store,lookup,hk]
    · simp [store,lookup,hk,Ne.symm hk]
  | cons b l ih =>
    by_cases hb : key b = key a
    · by_cases hk : k = key a
      · simp [store,lookup,hb,hk]
      · simp [store,lookup,hb,hk,Ne.symm hk]
    · by_cases hb' : key b = k
      · have hk : ¬ k = key a := fun hk => hb (hb'.trans hk)
        simp [store,lookup,hb',hk]
      · have hskip (l' : List A) : lookup key k (b :: l') = lookup key k l' := by simp [lookup,hb']
        rw [store,if_neg hb,hskip,hskip,ih]

theorem lookup_map {f : A → A} (hf : ∀ a, key (f a) = key a) : lookup key k (l.map f) = (lookup key k l).map f := by
  induction l with
  | nil => rfl
  | cons b l ih =>
    by_cases hb : key b = k
    · simp [lookup,hf,hb]
    · have hskip (c : A) (hc : key c = key b) (l' : List A) : lookup key k (c :: l') = lookup key k l' := by
        simp [lookup,hc,hb]
      rw [List.map_cons,hskip (f b) (hf b),hskip b rfl,ih]

theorem mem_store (h : b ∈ store key a l) : b = a ∨ b ∈ l := by
  induction l with
  | nil => exact .inl (by simpa [store] using h)
  | cons c l ih =>
    rw [store] at h
    split_ifs at h with hc
    · exact (List.mem_cons.mp h).imp_right (List.mem_cons_of_mem c)
    · obtain rfl | h := List.mem_cons.mp h
      · exact .inr List.mem_cons_self
      · exact (ih h).imp_right (List.mem_cons_of_mem c)

theorem mem_keys_store {x : K} : x ∈ (store key a l).map key ↔ x = key a ∨ x ∈ l.map key := by
  induction l with
  | nil => simp [store]
  | cons b l ih =>
    rw [store]
    split_ifs with hb
    · simp [hb]
    · rw [List.map_cons,List.mem_cons,ih,List.map_cons,List.mem_cons]
      exact or_left_comm

theorem nodup_store (h : (l.map key).Nodup) : ((store key a l).map key).Nodup := by
  induction l with
  | nil => simp [store]
  | cons b l ih =>
    obtain ⟨hb,hl⟩ := List.nodup_cons.mp h
    rw [store]
    split_ifs with hsame
    · rw [List.map_cons,← hsame]
      exact h
    · rw [List.map_cons,List.nodup_cons,mem_keys_store]
      exact ⟨fun hmem => hmem.elim hsame hb,ih hl⟩

theorem nodup_pop (h : (l.map key).Nodup) : ((pop key k l).map key).Nodup :=
  h.sublist (List.Sublist.map key List.filter_sublist)

theorem length_pop_lt (key : A → K) {l : List A} {k : K} (h : lookup key k l ≠ none) : (pop key k l).length < l.length := by
  obtain ⟨a,ha⟩ := Option.ne_none_iff_exists'.mp h
  obtain ⟨hmem,hkey⟩ := lookup_mem ha
  exact List.length_filter_lt_length_iff_exists.mpr ⟨a,hmem,by simp [hkey]⟩

theorem length_store_le (key : A → K) (a : A) (l : List A) : (store key a l).length ≤ l.length + 1 := by
  induction l with
  | nil => exact Nat.le_refl _
  | cons b l ih =>
    rw [store]
    split_ifs
    · exact Nat.le_succ _
    · exact Nat.succ_le_succ ih

theorem length_store (h : lookup key (key a) l ≠ none) : (store key a l).length = l.length := by
  induction l with
  | nil => exact absurd rfl h
  | cons b l ih =>
    rw [store]
    split_ifs with hb
    · rfl
    · have hskip : lookup key (key a) (b :: l) = lookup key (key a) l := by simp [lookup,hb]
      rw [hskip] at h
      simp [ih h]

end Keyed
end BeliefKV
