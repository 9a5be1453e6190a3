import Mathlib.Data.Finset.Card
import BeliefKV.Lib.Components

/-! Topological sorting by counts of incoming edges: the nodes of an acyclic graph are all
visited. -/
namespace BeliefKV.Kahn
open Components
variable {α : Type} [LinearOrder α]

def outgoing (edges : Finset (α × α)) (a : α) : Finset α :=
  (edges.filter fun e => e.1 = a).image Prod.snd

def incoming (edges : Finset (α × α)) (a : α) : ℕ := (edges.filter fun e => e.2 = a).card

/-- Visit the nodes that wait for nothing; the result is how many were visited. -/
def drain (edges : Finset (α × α)) : ℕ → List α → (α → ℕ) → ℕ → ℕ
  | 0, _, _, visited => visited
  | _ + 1, [], _, visited => visited
  | fuel + 1, a :: ready, count, visited =>
    let targets := outgoing edges a
    let count := fun x => if x ∈ targets then count x - 1 else count x
    drain edges fuel (ascending (targets.filter fun x => count x = 0) ++ ready) count (visited + 1)

/-- How many nodes are visited, starting from those without incoming edges. -/
def visits (nodes : Finset α) (edges : Finset (α × α)) : ℕ :=
  drain edges nodes.card (ascending (nodes.filter fun x => incoming edges x = 0)) (incoming edges) 0

variable {nodes : Finset α} {edges : Finset (α × α)}

theorem mem_outgoing {a x : α} : x ∈ outgoing edges a ↔ (a,x) ∈ edges := by
  simp only [outgoing,Finset.mem_image,Finset.mem_filter]
  constructor
  · rintro ⟨⟨b,y⟩,⟨he,rfl⟩,rfl⟩
    exact he
  · intro he
    exact ⟨(a,x),⟨he,rfl⟩,rfl⟩

/-- The nodes in `done` were visited; the counts are of the edges that come from elsewhere, and a
node is done or ready exactly if its count is zero. -/
structure Draining (nodes : Finset α) (edges : Finset (α × α)) (done : Finset α) (ready : List α)
    (count : α → ℕ) : Prop where
  done_sub : done ⊆ nodes
  count_eq : ∀ x, count x = (edges.filter fun e => e.2 = x ∧ e.1 ∉ done).card
  settled : ∀ x, x ∈ done ∨ x ∈ ready ↔ x ∈ nodes ∧ count x = 0
  apart : ∀ x ∈ ready, x ∉ done
  nodup : ready.Nodup

theorem Draining.start : Draining nodes edges ∅
    (ascending (nodes.filter fun x => incoming edges x = 0)) (incoming edges) where
  done_sub := Finset.empty_subset _
  count_eq x := by simp [incoming]
  settled x := by simp
  apart x _ := by simp
  nodup := Finset.sort_nodup _ _

/-- The edge from the visited node no longer counts. -/
theorem count_visit {done : Finset α} {count : α → ℕ} {a : α} (ha : a ∉ done)
    (hcount : ∀ x, count x = (edges.filter fun e => e.2 = x ∧ e.1 ∉ done).card) (x : α) :
    (if x ∈ outgoing edges a then count x - 1 else count x) =
      (edges.filter fun e => e.2 = x ∧ e.1 ∉ insert a done).card := by
  split_ifs with hx
  · rw [mem_outgoing] at hx
    have hsplit : edges.filter (fun e => e.2 = x ∧ e.1 ∉ done) =
        insert (a,x) (edges.filter fun e => e.2 = x ∧ e.1 ∉ insert a done) := by
      ext ⟨b,y⟩
      simp only [Finset.mem_filter,Finset.mem_insert,Prod.mk.injEq,not_or]
      constructor
      · rintro ⟨he,rfl,hb⟩
        by_cases hba : b = a
        · exact .inl ⟨hba,rfl⟩
        · exact .inr ⟨he,rfl,hba,hb⟩
      · rintro (⟨rfl,rfl⟩ | ⟨he,rfl,-,hb⟩)
        · exact ⟨hx,rfl,ha⟩
        · exact ⟨he,rfl,hb⟩
    rw [hcount,hsplit,Finset.card_insert_of_notMem (by simp)]
    rfl
  · rw [hcount]
    congr 1
    ext ⟨b,y⟩
    simp only [Finset.mem_filter,Finset.mem_insert,not_or]
    constructor
    · rintro ⟨he,rfl,hb⟩
      refine ⟨he,rfl,?_,hb⟩
      rintro rfl
      exact hx (mem_outgoing.mpr he)
    · rintro ⟨he,rfl,-,hb⟩
      exact ⟨he,rfl,hb⟩

theorem Draining.visit {done : Finset α} {a : α} {ready : List α} {count : α → ℕ}
    (hd : Draining nodes edges done (a :: ready) count) (hedge : ∀ e ∈ edges, e.2 ∈ nodes) :
    Draining nodes edges (insert a done)
      (ascending ((outgoing edges a).filter fun x =>
        (if x ∈ outgoing edges a then count x - 1 else count x) = 0) ++ ready) fun x => if x ∈ outgoing edges a then count x - 1 else count x := by
  have ha := hd.apart a (by simp)
  have hpos {x : α} (hx : x ∈ outgoing edges a) : count x ≠ 0 := by
    rw [hd.count_eq]
    exact Finset.card_ne_zero_of_mem (Finset.mem_filter.mpr ⟨mem_outgoing.mp hx,rfl,ha⟩)
  have hold {x : α} (hx : x ∈ outgoing edges a) : x ∉ done ∧ x ∉ a :: ready := by
    constructor
    · exact fun h => hpos hx ((hd.settled x).mp (.inl h)).2
    · exact fun h => hpos hx ((hd.settled x).mp (.inr h)).2
  constructor
  · exact Finset.insert_subset ((hd.settled a).mp (.inr (by simp))).1 hd.done_sub
  · exact count_visit ha hd.count_eq
  · intro x
    rw [Finset.mem_insert,List.mem_append,Finset.mem_sort,Finset.mem_filter]
    by_cases hx : x ∈ outgoing edges a
    · obtain ⟨hdone,hready⟩ := hold hx
      rw [List.mem_cons,not_or] at hready
      simp only [hx,if_true,true_and,hdone,hready.1,hready.2,or_false,false_or]
      exact ⟨fun h => ⟨hedge (a,x) (mem_outgoing.mp hx),h⟩,And.right⟩
    · simp only [hx,if_false,false_and,false_or]
      rw [← hd.settled x,List.mem_cons]
      tauto
  · intro x hx
    rw [Finset.mem_insert,not_or]
    rcases List.mem_append.mp hx with hnew | hwait
    · rw [Finset.mem_sort,Finset.mem_filter] at hnew
      obtain ⟨hdone,hready⟩ := hold hnew.1
      exact ⟨fun h => hready (by simp [h]),hdone⟩
    · refine ⟨fun hne => ?_,hd.apart x (List.mem_cons_of_mem a hwait)⟩
      exact (List.nodup_cons.mp hd.nodup).1 (hne ▸ hwait)
  · refine List.nodup_append.mpr ⟨Finset.sort_nodup _ _,(List.nodup_cons.mp hd.nodup).2,?_⟩
    rintro x hx y hy rfl
    rw [Finset.mem_sort,Finset.mem_filter] at hx
    exact (hold hx.1).2 (List.mem_cons_of_mem a hy)

/-- When nothing is ready, nothing is left: along an increasing rank every node is done. -/
theorem Draining.done_eq {done : Finset α} {count : α → ℕ}
    (hd : Draining nodes edges done [] count) (hedge : ∀ e ∈ edges, e.1 ∈ nodes) (rank : α → ℕ)
    (hrank : ∀ e ∈ edges, rank e.1 < rank e.2) : done = nodes := by
  have hall (n : ℕ) : ∀ x ∈ nodes, rank x < n → x ∈ done := by
    induction n with
    | zero => simp
    | succ n ih =>
      intro x hx hlt
      have hzero : count x = 0 := by
        rw [hd.count_eq,Finset.card_eq_zero,Finset.filter_eq_empty_iff]
        rintro e he ⟨rfl,hout⟩
        exact hout (ih e.1 (hedge e he) (by have := hrank e he; omega))
      exact ((hd.settled x).mpr ⟨hx,hzero⟩).resolve_right (by simp)
  refine Finset.Subset.antisymm hd.done_sub fun x hx => hall (rank x + 1) x hx (Nat.lt_succ_self _)

theorem drain_eq {done : Finset α} {ready : List α} {count : α → ℕ} {fuel visited : ℕ}
    (hd : Draining nodes edges done ready count)
    (hedge : ∀ e ∈ edges, e.1 ∈ nodes ∧ e.2 ∈ nodes) (rank : α → ℕ)
    (hrank : ∀ e ∈ edges, rank e.1 < rank e.2) (hfuel : fuel + done.card = nodes.card)
    (hvisited : visited = done.card) : drain edges fuel ready count visited = nodes.card := by
  induction fuel generalizing done ready count visited with
  | zero =>
    rw [drain]
    omega
  | succ fuel ih =>
    cases ready with
    | nil =>
      rw [drain,hvisited,hd.done_eq (fun e he => (hedge e he).1) rank hrank]
    | cons a ready =>
      have ha := hd.apart a (by simp)
      rw [drain]
      refine ih (hd.visit fun e he => (hedge e he).2) ?_ ?_
      · rw [Finset.card_insert_of_notMem ha]
        omega
      · rw [Finset.card_insert_of_notMem ha,hvisited]

/-- All nodes of a graph with an increasing rank are visited. -/
theorem visits_eq (hedge : ∀ e ∈ edges, e.1 ∈ nodes ∧ e.2 ∈ nodes) (rank : α → ℕ)
    (hrank : ∀ e ∈ edges, rank e.1 < rank e.2) : visits nodes edges = nodes.card :=
  drain_eq .start hedge rank hrank (by simp) (by simp)

end BeliefKV.Kahn
