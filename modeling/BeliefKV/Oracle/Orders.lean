import Mathlib.Data.String.Basic
import BeliefKV.Protocol
import BeliefKV.Lib.Precedence

/-! The topological orders of a graph of requests, found by backtracking. -/
namespace BeliefKV

namespace Dict

/-- The elements of a set of texts are listed in increasing order. -/
theorem sorted_lt (s : Finset String) : (sorted s).Pairwise (· < ·) := by
  unfold sorted
  refine (Std.ExtTreeMap.ordered_keys).imp fun {a b} h => ?_
  exact compareOfLessAndEq_eq_lt.mp h

end Dict

namespace JointOracle
open Precedence

section Requests
variable (requestPredecessors : Dict String (List String))

/-- The predecessors of a request without repetitions. -/
def normalized (requestId : String) : Finset String := (requestPredecessors[requestId]?.getD []).toFinset

/-- The text of a list of texts. -/
def listText (items : List String) : String :=
  "[" ++ ", ".intercalate (items.map fun item => "'" ++ item ++ "'") ++ "]"

/-- The predecessors of a request are other requests. -/
def checkPredecessors (requestId : String) : Except Raised Unit :=
  let unknown := normalized requestPredecessors requestId \ requestPredecessors.keySet
  ensure (unknown = ∅ ∧ requestId ∉ normalized requestPredecessors requestId)
    (.valueError ("invalid predecessors for " ++ requestId ++ ": " ++ listText (Dict.sorted unknown)))

def successors (requestId : String) : List String :=
  Dict.sorted (requestPredecessors.keySet.filter fun item => requestId ∈ normalized requestPredecessors item)

def initialIndegree (requestId : String) : ℤ := (normalized requestPredecessors requestId).card

def initialAvailable : Finset String :=
  requestPredecessors.keySet.filter fun requestId => initialIndegree requestPredecessors requestId = 0

end Requests

/-! ## Backtracking -/

/-- What a search has found, and whether it has left anything out. -/
structure OrderSearch where
  results : List (List String) := []
  truncated : Bool := false

section Search
variable (requestPredecessors : Dict String (List String)) (maxOrders : ℕ)

/-- Visit some requests one after another until there are enough results. -/
def visitEach (visit : String → OrderSearch → OrderSearch) : List String → OrderSearch → OrderSearch
  | [], s => s
  | selected :: rest, s =>
    if maxOrders ≤ s.results.length then { s with truncated := true }
    else visitEach visit rest (visit selected s)

/-- Continue an order by the requests that are left. -/
def visit (left : ℕ) (order : List String) (indegree : String → ℤ) (available : Finset String) (s : OrderSearch) :
    OrderSearch :=
  if maxOrders ≤ s.results.length then { s with truncated := true }
  else if order.length = requestPredecessors.keySet.card then { s with results := s.results ++ [order] }
  else
    match left with
    | 0 => s
    | left + 1 =>
      visitEach maxOrders (fun selected s =>
        let released := release (successors requestPredecessors selected) indegree (available.erase selected)
        visit left (order ++ [selected]) released.1 released.2 s) (Dict.sorted available) s

end Search

def enumerateTopologicalOrders (requestPredecessors : Dict String (List String)) (maxOrders : ℤ) :
    Except Raised (List (List String) × Bool) := do
  ensure (0 < maxOrders) (.valueError "max_orders must be positive")
  requestPredecessors.keys.forM (checkPredecessors requestPredecessors)
  let found := visit requestPredecessors maxOrders.toNat requestPredecessors.keySet.card []
    (initialIndegree requestPredecessors) (initialAvailable requestPredecessors) {}
  ensure (found.results ≠ []) (.valueError "request dependency graph is cyclic")
  .ok (found.results,!found.truncated)

/-! ## What a search finds -/

/-- A search adds some orders as long as there is room for them. Where every branch leads to an order, it has left
something out iff there is no room for them all. -/
structure Found (maxOrders : ℕ) (live : Prop) (s : OrderSearch) (orders : List (List String)) (t : OrderSearch) :
    Prop where
  results : t.results = (s.results ++ orders).take maxOrders
  truncated : live → t.truncated = (s.truncated || decide (maxOrders < s.results.length + orders.length))

section Found
variable {maxOrders : ℕ} {live : Prop} {s t u : OrderSearch} {orders orders' : List (List String)}

theorem Found.length_le (h : Found maxOrders live s orders t) : t.results.length ≤ maxOrders := by
  rw [h.results,List.length_take]
  exact min_le_left _ _

theorem Found.nothing (h : s.results.length ≤ maxOrders) : Found maxOrders live s [] s := by
  refine ⟨?_,fun _ => ?_⟩
  · rw [List.append_nil,List.take_of_length_le h]
  · rw [List.length_nil,Nat.add_zero,decide_eq_false (not_lt.mpr h),Bool.or_false]

theorem Found.full (h : s.results.length ≤ maxOrders) (hfull : maxOrders ≤ s.results.length)
    (hlive : live → orders ≠ []) : Found maxOrders live s orders { s with truncated := true } := by
  refine ⟨?_,fun hl => ?_⟩
  · rw [List.take_append_of_le_length hfull,List.take_of_length_le h]
  · have hpos := List.length_pos_iff.mpr (hlive hl)
    rw [decide_eq_true (by omega),Bool.or_true]

theorem Found.one {order : List String} (h : s.results.length < maxOrders) :
    Found maxOrders live s [order] { s with results := s.results ++ [order] } := by
  refine ⟨?_,fun _ => ?_⟩
  · rw [List.take_of_length_le]
    rw [List.length_append,List.length_singleton]
    omega
  · rw [List.length_singleton,decide_eq_false (by omega),Bool.or_false]

theorem Found.append (h : Found maxOrders live s orders t) (h' : Found maxOrders live t orders' u) :
    Found maxOrders live s (orders ++ orders') u := by
  refine ⟨?_,fun hl => ?_⟩
  · have htake (xs ys : List (List String)) :
        (xs.take maxOrders ++ ys).take maxOrders = (xs ++ ys).take maxOrders := by
      rw [List.take_append,List.take_append,List.take_take,min_self,List.length_take]
      congr 2
      omega
    rw [h'.results,h.results,← List.append_assoc,htake]
  · have hlength := congrArg List.length h.results
    rw [List.length_take,List.length_append] at hlength
    rw [h'.truncated hl,h.truncated hl,hlength,List.length_append,Bool.or_assoc]
    congr 1
    rw [Bool.eq_iff_iff]
    simp only [Bool.or_eq_true,decide_eq_true_eq]
    omega

variable {visit : String → OrderSearch → OrderSearch} {branch : String → List (List String)}

theorem visitEach_found {selected : List String} (hlive : live → ∀ a ∈ selected, branch a ≠ [])
    (hvisit : ∀ a ∈ selected, ∀ s : OrderSearch, s.results.length ≤ maxOrders →
      Found maxOrders live s (branch a) (visit a s)) :
    ∀ s : OrderSearch, s.results.length ≤ maxOrders →
      Found maxOrders live s (selected.flatMap branch) (visitEach maxOrders visit selected s) := by
  induction selected with
  | nil => exact fun s hs => .nothing hs
  | cons a rest ih =>
    intro s hs
    rw [visitEach,List.flatMap_cons]
    by_cases hfull : maxOrders ≤ s.results.length
    · rw [if_pos hfull]
      refine .full hs hfull fun hl hnil => ?_
      exact hlive hl a List.mem_cons_self (List.append_eq_nil_iff.mp hnil).1
    · rw [if_neg hfull]
      have hone := hvisit a List.mem_cons_self s hs
      refine hone.append (ih (fun hl b hb => ?_) (fun b hb => ?_) _ hone.length_le)
      · exact hlive hl b (List.mem_cons_of_mem a hb)
      · exact hvisit b (List.mem_cons_of_mem a hb)

end Found

/-! ## The orders -/

section Orders
variable {requestPredecessors : Dict String (List String)} {maxOrders : ℕ} {order : List String}

/-- The requests that may come next. -/
def readyRequests (requestPredecessors : Dict String (List String)) (order : List String) : List String :=
  Dict.sorted (requestPredecessors.keySet.filter fun a =>
    a ∉ order ∧ ∀ b ∈ normalized requestPredecessors a, b ∈ order)

theorem mem_readyRequests (order : List String) (a : String) : a ∈ readyRequests requestPredecessors order ↔
    Ready requestPredecessors.keySet (normalized requestPredecessors) order a := by
  unfold readyRequests
  rw [Dict.mem_sorted,Finset.mem_filter]
  exact ⟨fun h => ⟨h.1,h.2.1,h.2.2⟩,fun h => ⟨h.mem,h.new,h.free⟩⟩

theorem mem_successors {a b : String} : b ∈ successors requestPredecessors a ↔
    b ∈ requestPredecessors.keySet ∧ a ∈ normalized requestPredecessors b := by
  unfold successors
  rw [Dict.mem_sorted,Finset.mem_filter]

variable (requestPredecessors) in
theorem nodup_successors (a : String) : (successors requestPredecessors a).Nodup := Dict.nodup_sorted _

theorem visit_found (left : ℕ) {live : Prop} (hlive : live → ∀ {left : ℕ} {order : List String},
      Feasible requestPredecessors.keySet (normalized requestPredecessors) order →
      order.length + left = requestPredecessors.keySet.card →
      completions (readyRequests requestPredecessors) left order ≠ []) :
    ∀ {order : List String} {indegree : String → ℤ} {available : Finset String},
    Feasible requestPredecessors.keySet (normalized requestPredecessors) order →
    Frontier requestPredecessors.keySet (normalized requestPredecessors) order indegree available →
    order.length + left = requestPredecessors.keySet.card → ∀ s : OrderSearch, s.results.length ≤ maxOrders →
    Found maxOrders live s (completions (readyRequests requestPredecessors) left order)
      (visit requestPredecessors maxOrders left order indegree available s) := by
  induction left with
  | zero =>
    intro order indegree available horder _ hlength s hs
    rw [visit,completions]
    by_cases hfull : maxOrders ≤ s.results.length
    · rw [if_pos hfull]
      exact .full hs hfull fun _ => List.cons_ne_nil order []
    · rw [if_neg hfull,if_pos (show order.length = _ from hlength)]
      exact .one (not_le.mp hfull)
  | succ left ih =>
    intro order indegree available horder hfrontier hlength s hs
    rw [visit]
    by_cases hfull : maxOrders ≤ s.results.length
    · rw [if_pos hfull]
      exact .full hs hfull fun hl => hlive hl horder hlength
    · have havailable : readyRequests requestPredecessors order = Dict.sorted available := by
        unfold readyRequests
        congr 1
        ext a
        rw [← Dict.mem_sorted,hfrontier.available]
        exact mem_readyRequests order a
      rw [if_neg hfull,if_neg (by omega),completions,havailable]
      have hready (a : String) (ha : a ∈ Dict.sorted available) :
          Ready requestPredecessors.keySet (normalized requestPredecessors) order a :=
        (hfrontier.available a).mp ((Dict.mem_sorted available a).mp ha)
      have hmore (a : String) : (order ++ [a]).length + left = requestPredecessors.keySet.card := by
        rw [List.length_append,List.length_singleton]
        omega
      refine visitEach_found (fun hl a ha => ?_) (fun a ha s hs => ?_) s hs
      · exact hlive hl (feasible_concat_iff.mpr ⟨horder,hready a ha⟩) (hmore a)
      · refine ih (feasible_concat_iff.mpr ⟨horder,hready a ha⟩) ?_ (hmore a) s hs
        exact hfrontier.release horder (hready a ha) (nodup_successors requestPredecessors a) fun b => mem_successors

/-- A graph of requests that is turned down. -/
def Malformed (requestPredecessors : Dict String (List String)) : Prop :=
  (∃ a ∈ requestPredecessors.keySet, ∃ b ∈ normalized requestPredecessors a, b ∉ requestPredecessors.keySet) ∨
    ∃ a, Relation.TransGen (Precedes requestPredecessors.keySet (normalized requestPredecessors)) a a

theorem checked_iff : requestPredecessors.keys.forM (checkPredecessors requestPredecessors) = .ok () ↔
    ∀ a ∈ requestPredecessors.keySet, (∀ b ∈ normalized requestPredecessors a, b ∈ requestPredecessors.keySet) ∧
      a ∉ normalized requestPredecessors a := by
  rw [forM_ok_iff]
  refine forall_congr' fun a => ?_
  rw [Std.ExtTreeMap.mem_keys,← Dict.mem_keySet]
  refine imp_congr_right fun _ => ?_
  unfold checkPredecessors
  rw [ensure_eq_ok,Finset.sdiff_eq_empty_iff_subset]
  rfl

variable (requestPredecessors) in
theorem initial_frontier : Frontier requestPredecessors.keySet (normalized requestPredecessors) []
    (initialIndegree requestPredecessors) (initialAvailable requestPredecessors) := .start

theorem completions_live (h : ¬ Malformed requestPredecessors) {left : ℕ}
    (horder : Feasible requestPredecessors.keySet (normalized requestPredecessors) order)
    (hlength : order.length + left = requestPredecessors.keySet.card) :
    completions (readyRequests requestPredecessors) left order ≠ [] := by
  refine completions_ne_nil mem_readyRequests (fun a hcycle => h (.inr ⟨a,hcycle⟩)) (fun a ha b hb => ?_) left horder
    hlength
  by_contra hunknown
  exact h (.inl ⟨a,ha,b,hb,hunknown⟩)

/-- The result of a search among requests whose predecessors are known. -/
theorem enumerate_found {limit : ℤ} (hlimit : 0 < limit)
    (hchecked : requestPredecessors.keys.forM (checkPredecessors requestPredecessors) = .ok ()) :
    ∃ found, Found limit.toNat (¬ Malformed requestPredecessors) {}
        (completions (readyRequests requestPredecessors) requestPredecessors.keySet.card []) found ∧
      enumerateTopologicalOrders requestPredecessors limit =
        if found.results = [] then .error (.valueError "request dependency graph is cyclic")
        else .ok (found.results,!found.truncated) := by
  have hfound : Found limit.toNat (¬ Malformed requestPredecessors) {}
      (completions (readyRequests requestPredecessors) requestPredecessors.keySet.card [])
      (visit requestPredecessors limit.toNat requestPredecessors.keySet.card []
        (initialIndegree requestPredecessors) (initialAvailable requestPredecessors) {}) :=
    visit_found requestPredecessors.keySet.card (fun h => completions_live h) feasible_nil
      (initial_frontier requestPredecessors) (Nat.zero_add _) {} (Nat.zero_le _)
  refine ⟨_,hfound,?_⟩
  unfold enumerateTopologicalOrders
  rw [ensure_eq_ok (u := ()).mpr hlimit,hchecked]
  generalize visit requestPredecessors limit.toNat requestPredecessors.keySet.card []
    (initialIndegree requestPredecessors) (initialAvailable requestPredecessors) {} = found
  change (ensure (found.results ≠ []) _ >>= fun _ => _) = _
  by_cases hnil : found.results = []
  · rw [if_pos hnil,ensure,if_neg (not_not.mpr hnil)]
    rfl
  · rw [if_neg hnil,ensure_eq_ok (u := ()).mpr hnil]
    rfl

theorem malformed_of_unchecked
    (h : ¬ requestPredecessors.keys.forM (checkPredecessors requestPredecessors) = .ok ()) :
    Malformed requestPredecessors := by
  rw [checked_iff] at h
  push Not at h
  obtain ⟨a,ha,h⟩ := h
  by_cases hknown : ∀ b ∈ normalized requestPredecessors a, b ∈ requestPredecessors.keySet
  · exact .inr ⟨a,.single ⟨ha,h hknown⟩⟩
  · push Not at hknown
    exact .inl ⟨a,ha,hknown⟩

variable (requestPredecessors) in
/-- The orders that a search would list if there were room for them all. -/
theorem mem_all_iff (order : List String) :
    order ∈ completions (readyRequests requestPredecessors) requestPredecessors.keySet.card [] ↔
      Topological requestPredecessors.keySet (normalized requestPredecessors) order := by
  rw [mem_completions mem_readyRequests _ feasible_nil,topological_iff,List.length_nil,Nat.zero_add]
  exact ⟨fun h => ⟨h.1,h.2.2⟩,fun h => ⟨h.1,List.nil_prefix,h.2⟩⟩

/-- The graph is turned down iff a predecessor is unknown or there is a cycle. Otherwise the first topological orders
in lexicographic order are found, and the flag tells whether these are all. -/
theorem enumerate_exact (requestPredecessors : Dict String (List String)) (maxOrders : ℤ) (h : 0 < maxOrders) :
    ((∃ e, enumerateTopologicalOrders requestPredecessors maxOrders = .error e) ↔ Malformed requestPredecessors) ∧
    ∀ orders complete, enumerateTopologicalOrders requestPredecessors maxOrders = .ok (orders,complete) →
      ∃ all : List (List String),
        (∀ order, order ∈ all ↔
          Topological requestPredecessors.keySet (normalized requestPredecessors) order) ∧
        all.Pairwise (· < ·) ∧ all.Nodup ∧ orders = all.take maxOrders.toNat ∧
        (complete = true ↔ (all.length : ℤ) ≤ maxOrders) := by
  by_cases hchecked : requestPredecessors.keys.forM (checkPredecessors requestPredecessors) = .ok ()
  · obtain ⟨found,hfound,hresult⟩ := enumerate_found h hchecked
    have hmem := mem_all_iff requestPredecessors
    have hlive : ¬ Malformed requestPredecessors → _ := fun h => completions_live h feasible_nil (Nat.zero_add _)
    have hsorted : (completions (readyRequests requestPredecessors) requestPredecessors.keySet.card []).Pairwise
        (List.Lex (· < ·)) := sorted_completions (fun order => Dict.sorted_lt _) _ []
    generalize completions (readyRequests requestPredecessors) requestPredecessors.keySet.card [] = all at *
    have hresults : found.results = all.take maxOrders.toNat := hfound.results
    have hpos : 0 < maxOrders.toNat := by omega
    have hformed (hall : all ≠ []) : ¬ Malformed requestPredecessors := by
      obtain ⟨order,horder⟩ := List.exists_mem_of_ne_nil all hall
      rintro (⟨a,ha,b,hb,hunknown⟩ | ⟨a,hcycle⟩)
      · exact hunknown ((checked_iff.mp hchecked a ha).1 b hb)
      · exact ((hmem order).mp horder).acyclic a hcycle
    refine ⟨?_,fun orders complete hok => ?_⟩
    · rw [hresult]
      by_cases hall : all = []
      · rw [if_pos (by rw [hresults,hall,List.take_nil])]
        exact iff_of_true ⟨_,rfl⟩ (not_not.mp fun h => hlive h hall)
      · have hsome : ¬ found.results = [] := by
          rw [hresults,List.take_eq_nil_iff]
          exact not_or.mpr ⟨hpos.ne',hall⟩
        rw [if_neg hsome]
        exact iff_of_false (fun ⟨e,he⟩ => by cases he) (hformed hall)
    · rw [hresult] at hok
      by_cases hnil : found.results = []
      · rw [if_pos hnil] at hok
        cases hok
      · rw [if_neg hnil] at hok
        cases hok
        have hall : all ≠ [] := by
          rintro rfl
          rw [List.take_nil] at hresults
          exact hnil hresults
        refine ⟨all,hmem,hsorted,hsorted.imp fun {a b} hless => ne_of_lt (show a < b from hless),hresults,?_⟩
        rw [hfound.truncated (hformed hall),Bool.false_or,Bool.not_eq_true',decide_eq_false_iff_not]
        change ¬ maxOrders.toNat < 0 + all.length ↔ _
        omega
  · have hraises : ¬ ∃ r, enumerateTopologicalOrders requestPredecessors maxOrders = .ok r := by
      rintro ⟨r,hr⟩
      obtain ⟨_,-,hr⟩ := bind_eq_ok.mp hr
      obtain ⟨_,hr,-⟩ := bind_eq_ok.mp hr
      exact hchecked hr
    refine ⟨iff_of_true ?_ (malformed_of_unchecked hchecked),fun orders complete hok => absurd ⟨_,hok⟩ hraises⟩
    cases hresult : enumerateTopologicalOrders requestPredecessors maxOrders with
    | error e => exact ⟨e,rfl⟩
    | ok r => exact absurd ⟨r,hresult⟩ hraises

/-- The third request requires the first one. -/
def forkPredecessors : Dict String (List String) :=
  ((Std.ExtTreeMap.empty.insert "a" []).insert "b" []).insert "c" ["a","a"]

/-- Two of its three orders are asked for. -/
theorem fork_enumerated : 0 < (2 : ℤ) ∧
    enumerateTopologicalOrders forkPredecessors 2 = .ok ([["a","b","c"],["a","c","b"]],false) ∧
    ∃ all : List (List String),
      (∀ order, order ∈ all ↔ Topological forkPredecessors.keySet (normalized forkPredecessors) order) ∧
      all.Pairwise (· < ·) ∧ all.Nodup ∧ [["a","b","c"],["a","c","b"]] = all.take (Int.toNat 2) ∧
      (false = true ↔ (all.length : ℤ) ≤ 2) := by
  have hfound : enumerateTopologicalOrders forkPredecessors 2 = .ok ([["a","b","c"],["a","c","b"]],false) := by
    decide +kernel
  exact ⟨by decide,hfound,(enumerate_exact forkPredecessors 2 (by decide)).2 _ _ hfound⟩

end Orders
end JointOracle
end BeliefKV
