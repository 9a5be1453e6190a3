import BeliefKV.Lib.Dict

/-! Dictionaries that are read from a list of encoded entries. -/
namespace BeliefKV.Dict
variable {K V A E : Type} [Ord K] [Std.TransOrd K] [Std.LawfulEqOrd K] [DecidableEq K]

/-- Read the entries one after another; a later entry replaces an earlier one with its key. -/
def load (read : A → Except E (K × V)) : List A → Dict K V → Except E (Dict K V)
  | [], d => .ok d
  | a :: as, d =>
    match read a with
    | .error e => .error e
    | .ok entry => load read as (d.insert entry.1 entry.2)

omit [DecidableEq K] [Std.LawfulEqOrd K] in
theorem load_encoded {read : A → Except E (K × V)} {encode : K × V → A} {entries : List (K × V)}
    (h : ∀ entry ∈ entries, read (encode entry) = .ok entry) (d : Dict K V) :
    load read (entries.map encode) d = .ok (entries.foldl (fun d entry => d.insert entry.1 entry.2) d) := by
  induction entries generalizing d with
  | nil => rfl
  | cons entry entries ih =>
    rw [List.map_cons,load,h entry (by simp),List.foldl_cons]
    exact ih (fun a ha => h a (List.mem_cons_of_mem _ ha)) _

/-- The entries of a dictionary make it up again. -/
theorem foldl_insert_toList (d : Dict K V) :
    d.toList.foldl (fun d entry => d.insert entry.1 entry.2) (∅ : Dict K V) = d := by
  rw [← Std.ExtTreeMap.insertMany_list_eq_foldl]
  apply ext_get
  intro k
  cases hk : d[k]? with
  | none =>
    rw [Std.ExtTreeMap.getElem?_insertMany_list_of_contains_eq_false]
    · simp
    · simpa using hk
  | some v =>
    exact Std.ExtTreeMap.getElem?_insertMany_list_of_mem (k := k) Std.ReflCmp.compare_self
      Std.ExtTreeMap.distinct_keys_toList (Std.ExtTreeMap.mem_toList_iff_getElem?_eq_some.mpr hk)

/-- A dictionary is read back from its encoded entries. -/
theorem load_toList {read : A → Except E (K × V)} (d : Dict K V) (encode : K × V → A)
    (h : ∀ (k : K) (v : V), d[k]? = some v → read (encode (k,v)) = .ok (k,v)) :
    load read (d.toList.map encode) ∅ = .ok d := by
  rw [load_encoded,foldl_insert_toList]
  rintro ⟨k,v⟩ hmem
  exact h k v (Std.ExtTreeMap.mem_toList_iff_getElem?_eq_some.mp hmem)

theorem get_foldl_insert_of_mem {entries : List (K × V)} (h : (entries.map Prod.fst).Nodup) {k : K} {v : V}
    (hmem : (k,v) ∈ entries) :
    (entries.foldl (fun d entry => d.insert entry.1 entry.2) (∅ : Dict K V))[k]? = some v := by
  rw [← Std.ExtTreeMap.insertMany_list_eq_foldl]
  refine Std.ExtTreeMap.getElem?_insertMany_list_of_mem (k := k) Std.ReflCmp.compare_self ?_ hmem
  rw [List.Nodup,List.pairwise_map] at h
  exact h.imp fun hne heq => hne (Std.LawfulEqCmp.compare_eq_iff_eq.mp heq)

/-- Entries with different keys are those of the dictionary they make up. -/
theorem toList_foldl_insert {entries : List (K × V)} (h : (entries.map Prod.fst).Nodup) :
    ((entries.foldl (fun d entry => d.insert entry.1 entry.2) (∅ : Dict K V)).toList).Perm entries := by
  set d := entries.foldl (fun d entry => d.insert entry.1 entry.2) (∅ : Dict K V) with hd
  have hnodup : d.toList.Nodup := by
    refine List.Nodup.of_map Prod.fst ?_
    rw [Std.ExtTreeMap.map_fst_toList_eq_keys]
    exact Std.ExtTreeMap.nodup_keys
  rw [List.perm_ext_iff_of_nodup hnodup (List.Nodup.of_map Prod.fst h)]
  rintro ⟨k,v⟩
  rw [Std.ExtTreeMap.mem_toList_iff_getElem?_eq_some]
  constructor
  · intro hget
    by_cases hk : k ∈ entries.map Prod.fst
    · obtain ⟨⟨k',v'⟩,hmem,rfl⟩ := List.mem_map.mp hk
      have hv := get_foldl_insert_of_mem h hmem
      rw [← hd,hget] at hv
      rw [Option.some.inj hv]
      exact hmem
    · rw [hd,← Std.ExtTreeMap.insertMany_list_eq_foldl,
        Std.ExtTreeMap.getElem?_insertMany_list_of_contains_eq_false] at hget
      · simp at hget
      · simpa using hk
  · exact get_foldl_insert_of_mem h

end BeliefKV.Dict
