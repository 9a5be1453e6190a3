import Std.Data.ExtTreeMap
import Std.Data.ExtTreeMap.Lemmas
import Mathlib.Data.Finset.Basic
import Mathlib.Data.Finset.Union
import Mathlib.Data.Multiset.MapFold
import Mathlib.Algebra.BigOperators.Group.Finset.Basic
import Mathlib.Tactic

/-! Finite dictionaries with extensional equality. The carrier is the standard library's
extensional tree map, so two dictionaries with the same lookups are equal and iteration
runs in key order. -/
namespace BeliefKV

-- Pairs as keys are ordered lexicographically.
attribute [instance] lexOrd

abbrev Dict (K V : Type) [Ord K] := Std.ExtTreeMap K V

namespace Dict
variable {K V : Type} [Ord K] [Std.TransOrd K] [Std.LawfulEqOrd K] [DecidableEq K]

@[grind =] theorem get_insert (d : Dict K V) (k a : K) (v : V) :
    (d.insert k v)[a]? = if k = a then some v else d[a]? := by
  simp [Std.ExtTreeMap.getElem?_insert]

@[grind =] theorem get_erase (d : Dict K V) (k a : K) :
    (d.erase k)[a]? = if k = a then none else d[a]? := by
  simp [Std.ExtTreeMap.getElem?_erase]

/-- Rewrite the values stored under the keys of a finite set. Missing keys are skipped. -/
def updateAll (d : Dict K V) (keys : Finset K) (f : V → V) : Dict K V :=
  d.map fun k v => if k ∈ keys then f v else v

@[grind =] theorem get_updateAll (d : Dict K V) (keys : Finset K) (f : V → V) (a : K) :
    (d.updateAll keys f)[a]? = if a ∈ keys then d[a]?.map f else d[a]? := by
  unfold updateAll
  rw [Std.ExtTreeMap.getElem?_map]
  split_ifs <;> simp

omit [DecidableEq K] [Std.LawfulEqOrd K] in
theorem mem_iff_get (d : Dict K V) (k : K) : k ∈ d ↔ ∃ v, d[k]? = some v := by
  rw [← Std.ExtTreeMap.isSome_getElem?_iff_mem,Option.isSome_iff_exists]

omit [DecidableEq K] [Std.LawfulEqOrd K] in
theorem notMem_iff_get (d : Dict K V) (k : K) : k ∉ d ↔ d[k]? = none := by
  rw [mem_iff_get]
  cases d[k]? <;> simp

theorem mem_insert_iff (d : Dict K V) (k a : K) (v : V) : a ∈ d.insert k v ↔ a = k ∨ a ∈ d := by
  rw [mem_iff_get,get_insert,mem_iff_get]
  by_cases h : k = a
  · simp [h]
  · simp [h,Ne.symm h]

theorem mem_erase_iff (d : Dict K V) (k a : K) : a ∈ d.erase k ↔ a ≠ k ∧ a ∈ d := by
  rw [mem_iff_get,get_erase,mem_iff_get]
  by_cases h : k = a
  · simp [h]
  · simp [h,Ne.symm h]

theorem mem_updateAll (d : Dict K V) (keys : Finset K) (f : V → V) (a : K) :
    a ∈ d.updateAll keys f ↔ a ∈ d := by
  rw [mem_iff_get,get_updateAll,mem_iff_get]
  split_ifs <;> cases d[a]? <;> simp

/-- Keep the entries that satisfy a predicate on key and value. -/
def select (d : Dict K V) (p : K → V → Bool) : Dict K V := d.filter p

omit [DecidableEq K] in
@[grind =] theorem get_select (d : Dict K V) (p : K → V → Bool) (a : K) :
    (d.select p)[a]? = d[a]?.filter (p a) := by
  unfold select
  simp [Std.ExtTreeMap.getElem?_filter]

/-- Overlay `e` on `d`: entries of `e` replace those of `d` under the same key. -/
def overlay (d e : Dict K V) : Dict K V := d ∪ e

omit [DecidableEq K] [Std.LawfulEqOrd K] in
@[grind =] theorem get_overlay (d e : Dict K V) (a : K) :
    (d.overlay e)[a]? = e[a]?.or d[a]? := by
  unfold overlay
  rw [Std.ExtTreeMap.getElem?_union]

omit [DecidableEq K] [Std.LawfulEqOrd K] in
theorem mem_overlay (d e : Dict K V) (a : K) : a ∈ d.overlay e ↔ a ∈ d ∨ a ∈ e := by
  simp only [mem_iff_get,get_overlay]
  cases e[a]? <;> simp

/-- The keys of a dictionary as a finite set. -/
def keySet (d : Dict K V) : Finset K := d.keys.toFinset

@[simp, grind =] theorem mem_keySet (d : Dict K V) (k : K) : k ∈ d.keySet ↔ k ∈ d := by
  simp [keySet]

/-- The values of a dictionary in key order. -/
def vals (d : Dict K V) : List V := d.toList.map Prod.snd

omit [DecidableEq K] in
theorem mem_vals (d : Dict K V) (v : V) : v ∈ d.vals ↔ ∃ k : K, d[k]? = some v := by
  simp [vals,Std.ExtTreeMap.mem_toList_iff_getElem?_eq_some]

omit [Ord K] [Std.TransOrd K] [Std.LawfulEqOrd K] [DecidableEq K] in
/-- Lists of pairs that agree on the first parts and on images of the second parts. -/
theorem mem_of_map_eq {W B : Type} {l : List (K × V)} {l' : List (K × W)} {f : V → B} {g : W → B}
    (hk : l.map Prod.fst = l'.map Prod.fst) (hv : l.map (f ∘ Prod.snd) = l'.map (g ∘ Prod.snd))
    {k : K} {x : V} (hmem : (k,x) ∈ l) : ∃ y, (k,y) ∈ l' ∧ f x = g y := by
  induction l generalizing l' with
  | nil => cases hmem
  | cons a l ih =>
    cases l' with
    | nil => simp at hk
    | cons a' l' =>
      simp only [List.map_cons,List.cons.injEq,Function.comp_apply] at hk hv
      rcases List.mem_cons.mp hmem with rfl | hmem
      · exact ⟨a'.2,List.mem_cons.mpr (.inl (Prod.ext hk.1 rfl)),hv.1⟩
      · obtain ⟨y,hy,hxy⟩ := ih hk.2 hv.2 hmem
        exact ⟨y,List.mem_cons_of_mem a' hy,hxy⟩

omit [DecidableEq K] in
/-- Dictionaries with the same keys whose values agree in key order agree key by key. -/
theorem get_of_map_vals {W B : Type} {d : Dict K V} {d' : Dict K W} {f : V → B} {g : W → B}
    (hk : d.keys = d'.keys) (hv : d.vals.map f = d'.vals.map g) {k : K} (hmem : k ∈ d.keys) :
    ∃ x y, d[k]? = some x ∧ d'[k]? = some y ∧ f x = g y := by
  rw [← Std.ExtTreeMap.map_fst_toList_eq_keys,← Std.ExtTreeMap.map_fst_toList_eq_keys] at hk
  rw [← Std.ExtTreeMap.map_fst_toList_eq_keys] at hmem
  obtain ⟨⟨k,x⟩,hx,rfl⟩ := List.mem_map.mp hmem
  obtain ⟨y,hy,hxy⟩ := mem_of_map_eq hk (by simpa [vals] using hv) hx
  exact ⟨x,y,Std.ExtTreeMap.mem_toList_iff_getElem?_eq_some.mp hx,
    Std.ExtTreeMap.mem_toList_iff_getElem?_eq_some.mp hy,hxy⟩

/-- Remove every key of a finite set. -/
def eraseAll (d : Dict K V) (keys : Finset K) : Dict K V := d.select fun k _ => k ∉ keys

@[grind =] theorem get_eraseAll (d : Dict K V) (keys : Finset K) (a : K) :
    (d.eraseAll keys)[a]? = if a ∈ keys then none else d[a]? := by
  unfold eraseAll
  rw [get_select]
  split_ifs with h <;> cases d[a]? <;> simp [h]

/-- Store a value under every key of a list. -/
def insertAll (d : Dict K V) (keys : List K) (f : K → V) : Dict K V :=
  keys.foldl (fun d k => d.insert k (f k)) d

theorem get_insertAll (d : Dict K V) (keys : List K) (f : K → V) (a : K) :
    (d.insertAll keys f)[a]? = if a ∈ keys then some (f a) else d[a]? := by
  induction keys generalizing d with
  | nil => simp [insertAll]
  | cons k keys ih =>
    have htail := ih (d.insert k (f k))
    rw [get_insert] at htail
    refine htail.trans ?_
    by_cases ha : a ∈ keys
    · simp [ha]
    · by_cases hk : k = a
      · simp [hk]
      · simp [ha,hk,Ne.symm hk]

omit [DecidableEq K] in
theorem ext_get {d e : Dict K V} (h : ∀ k : K, d[k]? = e[k]?) : d = e :=
  Std.ExtTreeMap.ext_getElem? h

omit [DecidableEq K] in
/-- A dictionary without values is a set. -/
theorem ext_keys {d e : Dict K Unit} (h : ∀ k : K, k ∈ d.keys ↔ k ∈ e.keys) : d = e := by
  apply ext_get
  intro k
  have hk := h k
  rw [Std.ExtTreeMap.mem_keys,Std.ExtTreeMap.mem_keys,mem_iff_get,mem_iff_get] at hk
  cases hd : d[k]? with
  | none =>
    cases he : e[k]? with
    | none => rfl
    | some u => simp [hd,he] at hk
  | some u =>
    obtain ⟨v,hv⟩ := hk.mp ⟨u,hd⟩
    rw [hv]

instance : LeftCommutative fun (k : K) (d : Dict K Unit) => d.insert k () where
  left_comm a b d := by
    apply ext_get
    intro k
    simp only [get_insert]
    split_ifs <;> rfl

/-- The members of a finite set in ascending order. -/
def sorted (s : Finset K) : List K := (s.val.foldr (fun k (d : Dict K Unit) => d.insert k ()) ∅).keys

@[simp] theorem mem_sorted (s : Finset K) (k : K) : k ∈ sorted s ↔ k ∈ s := by
  unfold sorted
  rw [Std.ExtTreeMap.mem_keys,← Finset.mem_val]
  induction s.val using Multiset.induction with
  | empty => simp
  | cons a t ih => rw [Multiset.foldr_cons,mem_insert_iff,Multiset.mem_cons,ih]

theorem nodup_sorted (s : Finset K) : (sorted s).Nodup := Std.ExtTreeMap.nodup_keys

theorem length_sorted (s : Finset K) : (sorted s).length = s.card := by
  rw [← List.toFinset_card_of_nodup (nodup_sorted s)]
  congr 1
  ext k
  simp

theorem sorted_injective : Function.Injective (sorted (K := K)) := by
  intro s t h
  ext k
  rw [← mem_sorted,h,mem_sorted]

omit [Std.LawfulEqOrd K] in
/-- A sum over the keys is a sum over the entries. -/
theorem sum_keySet (d : Dict K V) (f : K → ℕ) :
    ∑ k ∈ d.keySet, f k = (d.toList.map fun e => f e.1).sum := by
  unfold keySet
  rw [List.sum_toFinset f Std.ExtTreeMap.nodup_keys,← Std.ExtTreeMap.map_fst_toList_eq_keys,
    List.map_map]
  rfl

end Dict
end BeliefKV
