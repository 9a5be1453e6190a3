import Mathlib.Data.Finset.Card
import Mathlib.Data.List.Nodup
import Mathlib.Tactic

/-! A bounded cache in the order of use, the most recent entry first. -/
namespace BeliefKV.Recency
variable {κ ν : Type*} [DecidableEq κ] {size : ℕ} {cache : List (κ × ν)} {k k' : κ} {v v' : ν}
  {since : List κ}

def lookup (cache : List (κ × ν)) (k : κ) : Option ν := (cache.find? (·.1 = k)).map Prod.snd

/-- The entry comes to the front. -/
def refresh (cache : List (κ × ν)) (k : κ) (v : ν) : List (κ × ν) := (k,v) :: cache.filter (·.1 ≠ k)

/-- The oldest entries beyond the bound go. -/
def remember (size : ℕ) (cache : List (κ × ν)) (k : κ) (v : ν) : List (κ × ν) :=
  (refresh cache k v).take size

def Unique (cache : List (κ × ν)) : Prop := (cache.map Prod.fst).Nodup

theorem Unique.refresh (h : Unique cache) : Unique (refresh cache k v) := by
  refine List.nodup_cons.mpr ⟨fun hmem => ?_,List.Nodup.sublist (List.filter_sublist.map _) h⟩
  obtain ⟨e,he,heq⟩ := List.mem_map.mp hmem
  simp [heq] at he

theorem Unique.remember (h : Unique cache) : Unique (remember size cache k v) :=
  List.Nodup.sublist ((List.take_sublist _ _).map _) h.refresh

/-- Only keys of `since` were used after `k`, and the entry of `k` is there unless they fill the
cache. -/
def Holds (size : ℕ) (cache : List (κ × ν)) (since : List κ) (k : κ) (v : ν) : Prop :=
  size ≤ since.toFinset.card ∨
    ∃ newer older, cache = newer ++ (k,v) :: older ∧ ∀ e ∈ newer, e.1 ∈ since ∧ e.1 ≠ k

theorem Holds.lookup (h : Holds size cache since k v) (hs : since.toFinset.card < size) :
    lookup cache k = some v := by
  obtain ⟨newer,older,rfl,hnewer⟩ := h.resolve_left (by omega)
  have hnone : newer.find? (·.1 = k) = none :=
    List.find?_eq_none.mpr fun e he => by simpa using (hnewer e he).2
  simp [Recency.lookup,List.find?_append,hnone]

theorem holds_refresh (size : ℕ) (cache : List (κ × ν)) (k : κ) (v : ν) :
    Holds size (refresh cache k v) [] k v :=
  .inr ⟨[],_,rfl,by simp⟩

theorem holds_remember (size : ℕ) (cache : List (κ × ν)) (k : κ) (v : ν) :
    Holds size (remember size cache k v) [] k v := by
  cases size with
  | zero => exact .inl (Nat.zero_le _)
  | succ n => exact .inr ⟨[],_,rfl,by simp⟩

/-- Another key in front moves an entry back by at most one. -/
theorem Holds.refresh (h : Holds size cache since k v) (hne : k' ≠ k) :
    Holds size (refresh cache k' v') (k' :: since) k v := by
  rcases h with hfull | ⟨newer,older,rfl,hnewer⟩
  · refine .inl (hfull.trans (Finset.card_le_card ?_))
    rw [List.toFinset_cons]
    exact Finset.subset_insert _ _
  · refine .inr ⟨(k',v') :: newer.filter (·.1 ≠ k'),older.filter (·.1 ≠ k'),?_,fun e he => ?_⟩
    · simp [Recency.refresh,Ne.symm hne]
    · rcases List.mem_cons.mp he with rfl | he
      · exact ⟨List.mem_cons_self,hne⟩
      · obtain ⟨hmem,hk⟩ := hnewer e (List.mem_of_mem_filter he)
        exact ⟨List.mem_cons_of_mem _ hmem,hk⟩

/-- The entry stays within the bound as long as few other keys were used. -/
theorem Holds.take (h : Holds size cache since k v) (hu : Unique cache) :
    Holds size (cache.take size) since k v := by
  by_cases hfull : size ≤ since.toFinset.card
  · exact .inl hfull
  · obtain ⟨newer,older,rfl,hnewer⟩ := h.resolve_left hfull
    have hnodup : (newer.map Prod.fst).Nodup :=
      List.Nodup.sublist ((List.sublist_append_left _ _).map _) hu
    have hlen : newer.length ≤ since.toFinset.card := by
      rw [← List.length_map (f := Prod.fst),← List.toFinset_card_of_nodup hnodup]
      refine Finset.card_le_card fun x hx => ?_
      obtain ⟨e,he,rfl⟩ := List.mem_map.mp (List.mem_toFinset.mp hx)
      exact List.mem_toFinset.mpr (hnewer e he).1
    obtain ⟨n,hn⟩ : ∃ n, size = newer.length + (n + 1) := ⟨size - newer.length - 1,by omega⟩
    refine .inr ⟨newer,older.take n,?_,hnewer⟩
    rw [hn,List.take_length_add_append,List.take_succ_cons]

theorem Holds.remember (h : Holds size cache since k v) (hu : Unique cache) (hne : k' ≠ k) :
    Holds size (remember size cache k' v') (k' :: since) k v :=
  (h.refresh hne).take hu.refresh

theorem mem_of_lookup (h : lookup cache k = some v) : (k,v) ∈ cache := by
  obtain ⟨e,he,rfl⟩ := Option.map_eq_some_iff.mp h
  have heq : e.1 = k := by simpa using List.find?_some he
  exact heq ▸ List.mem_of_find?_eq_some he

theorem mem_refresh {e : κ × ν} (h : e ∈ refresh cache k v) : e = (k,v) ∨ e ∈ cache := by
  rcases List.mem_cons.mp h with rfl | h
  · exact .inl rfl
  · exact .inr (List.mem_of_mem_filter h)

end BeliefKV.Recency
