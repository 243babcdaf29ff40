import Interprocess.Allocators.CacheImpl.Operations
import Mathlib.Tactic.Abel

namespace interprocess.ipcdetail

variable {Node : Type} [DecidableEq Node]

/-- A member of a cache took the nodes `given` from the user and gave the nodes `taken`,
    and nothing was lost between the cache and the pool. -/
structure Moves (pool : node_pool Node) (cache : cache_impl Node)
    (result : node_pool Node × cache_impl Node) (given taken : Multiset Node) : Prop where
  usecount_eq : result.1.m_usecount = pool.m_usecount
  balance : ∃ grown : Finset Node, Disjoint grown pool.created ∧
    result.1.created = pool.created ∪ grown ∧
    result.1.free + result.2.m_cached_nodes + taken =
      pool.free + cache.m_cached_nodes + given + grown.val

/-- Without new nodes. -/
theorem Moves.of_eq {pool pool' : node_pool Node} {cache cache' : cache_impl Node}
    {given taken : Multiset Node} (husecount : pool'.m_usecount = pool.m_usecount)
    (hcreated : pool'.created = pool.created)
    (hbalance : pool'.free + cache'.m_cached_nodes + taken =
      pool.free + cache.m_cached_nodes + given) :
    Moves pool cache (pool', cache') given taken :=
  ⟨husecount, ∅, Finset.disjoint_empty_left _, by rw [Finset.union_empty]; exact hcreated, by
    rw [Finset.empty_val, add_zero]
    exact hbalance⟩

namespace cache_impl

variable {pool : node_pool Node} {cache : cache_impl Node}

/-- Cutting the cache gives the nodes to the pool. -/
theorem priv_deallocate_n_nodes_moves (pool : node_pool Node) (cache : cache_impl Node) (n : Nat) :
    Moves pool cache (priv_deallocate_n_nodes pool cache n) 0 0 := by
  refine Moves.of_eq rfl rfl ?_
  show pool.free + (cache.m_cached_nodes.take n : Multiset Node) + cache.m_cached_nodes.drop n + 0 = _
  rw [add_zero, add_zero, add_assoc, Multiset.coe_add, List.take_append_drop]

theorem make_room_moves (pool : node_pool Node) (cache : cache_impl Node) :
    Moves pool cache (make_room pool cache) 0 0 := by
  unfold make_room
  split
  · exact priv_deallocate_n_nodes_moves pool cache _
  · exact Moves.of_eq rfl rfl rfl

/-- What the user gives is added to the cache beforehand. -/
theorem Moves.regroup {cache' : cache_impl Node} {result : node_pool Node × cache_impl Node}
    {given given' taken : Multiset Node} (hmoves : Moves pool cache' result given' taken)
    (hadd : (cache'.m_cached_nodes : Multiset Node) + given' = cache.m_cached_nodes + given) :
    Moves pool cache result given taken := by
  obtain ⟨grown, hdisjoint, hcreated, hbalance⟩ := hmoves.balance
  refine ⟨hmoves.usecount_eq, grown, hdisjoint, hcreated, ?_⟩
  rw [hbalance, add_assoc pool.free, hadd, ← add_assoc pool.free]

/-- What the user gives is added to the cache afterwards. -/
theorem Moves.push_front {pool' : node_pool Node} {cache' : cache_impl Node}
    (hmoves : Moves pool cache (pool', cache') 0 0) (ptr : Node) :
    Moves pool cache (pool', { cache' with m_cached_nodes := ptr :: cache'.m_cached_nodes })
      {ptr} 0 := by
  obtain ⟨grown, hdisjoint, hcreated, hbalance⟩ := hmoves.balance
  refine ⟨hmoves.usecount_eq, grown, hdisjoint, hcreated, ?_⟩
  rw [add_zero, add_zero] at hbalance
  show pool'.free + ((ptr :: cache'.m_cached_nodes : List Node) : Multiset Node) + 0 = _
  have hbalance' : pool'.free + (cache'.m_cached_nodes : Multiset Node) =
      pool.free + cache.m_cached_nodes + grown.val := hbalance
  rw [← Multiset.cons_coe, ← Multiset.singleton_add, add_zero, add_left_comm, hbalance']
  abel

theorem cached_deallocation_moves (pool : node_pool Node) (cache : cache_impl Node) (ptr : Node) :
    Moves pool cache (cached_deallocation pool cache ptr) {ptr} 0 :=
  Moves.push_front (make_room_moves pool cache) ptr

theorem cached_deallocation_chain_moves (pool : node_pool Node) (cache : cache_impl Node)
    (chain : List Node) :
    Moves pool cache (cached_deallocation_chain pool cache chain) chain 0 := by
  refine Moves.regroup (make_room_moves pool _) ?_
  show ((chain ++ cache.m_cached_nodes : List Node) : Multiset Node) + 0 = _
  rw [← Multiset.coe_add, add_zero, add_comm]

theorem set_max_cached_nodes_moves (pool : node_pool Node) (cache : cache_impl Node)
    (newmax : Nat) : Moves pool cache (set_max_cached_nodes pool cache newmax) 0 0 := by
  unfold set_max_cached_nodes priv_deallocate_remaining_nodes
  split
  · exact Moves.regroup (priv_deallocate_n_nodes_moves pool _ _) rfl
  · exact Moves.of_eq rfl rfl rfl

/-- A cache that is given back as a whole loses nothing, if the pool empties its chain. -/
theorem deallocate_all_cached_nodes_moves {left : List Node → List Node} (pool : node_pool Node)
    (cache : cache_impl Node) (hleft : cache.m_cached_nodes ≠ [] → left cache.m_cached_nodes = []) :
    Moves pool cache (deallocate_all_cached_nodes left pool cache) 0 0 := by
  unfold deallocate_all_cached_nodes
  split
  · exact Moves.of_eq rfl rfl rfl
  · rename_i hnodes
    refine Moves.of_eq rfl rfl ?_
    show pool.free + (cache.m_cached_nodes : Multiset Node) + left cache.m_cached_nodes + 0 = _
    rw [hleft hnodes, Multiset.coe_nil, add_zero, add_zero]

omit [DecidableEq Node] in
/-- The pool has all nodes of the cache, whatever it leaves of the chain. -/
theorem deallocate_all_cached_nodes_pool (left : List Node → List Node) (pool : node_pool Node)
    (cache : cache_impl Node) :
    (deallocate_all_cached_nodes left pool cache).1 =
      { pool with free := pool.free + cache.m_cached_nodes } := by
  unfold deallocate_all_cached_nodes
  split
  · rename_i hnodes
    rw [hnodes, Multiset.coe_nil, add_zero]
  · rfl

omit [DecidableEq Node] in
/-- There is room for one more node, also if the maximum is 0. -/
theorem make_room_length (pool : node_pool Node) (cache : cache_impl Node) :
    (make_room pool cache).2.m_max_cached_nodes = cache.m_max_cached_nodes ∧
      (make_room pool cache).2.m_cached_nodes.length + 1 ≤ max cache.m_max_cached_nodes 1 := by
  unfold make_room
  split
  · refine ⟨rfl, ?_⟩
    show (cache.m_cached_nodes.drop _).length + 1 ≤ _
    rw [List.length_drop]
    omega
  · refine ⟨rfl, ?_⟩
    show cache.m_cached_nodes.length + 1 ≤ _
    omega

/-- The bound on what a cache holds after a deallocation. -/
def Bounded (cache : cache_impl Node) : Prop :=
  cache.m_cached_nodes.length ≤ max cache.m_max_cached_nodes 1

omit [DecidableEq Node] in
theorem cached_deallocation_bounded (pool : node_pool Node) (cache : cache_impl Node)
    (ptr : Node) : Bounded (cached_deallocation pool cache ptr).2 := by
  obtain ⟨hmax, hlength⟩ := make_room_length pool cache
  show (ptr :: (make_room pool cache).2.m_cached_nodes).length ≤
    max (make_room pool cache).2.m_max_cached_nodes 1
  rw [hmax, List.length_cons]
  exact hlength

omit [DecidableEq Node] in
theorem cached_deallocation_chain_bounded (pool : node_pool Node) (cache : cache_impl Node)
    (chain : List Node) : Bounded (cached_deallocation_chain pool cache chain).2 := by
  obtain ⟨hmax, hlength⟩ := make_room_length pool
    { cache with m_cached_nodes := chain ++ cache.m_cached_nodes }
  unfold Bounded cached_deallocation_chain
  rw [hmax]
  omega

omit [DecidableEq Node] in
theorem pop_nodes_eq (cached : List Node) (n : Nat) (chain : List Node) (allocated : Nat) :
    pop_nodes cached n chain allocated =
      (cached.drop n, chain ++ cached.take n, allocated + min n cached.length) := by
  induction cached generalizing n chain allocated with
  | nil => cases n <;> simp [pop_nodes]
  | cons node rest ih =>
    cases n with
    | zero => simp [pop_nodes]
    | succ n =>
      rw [pop_nodes, ih]
      simp only [List.drop_succ_cons, List.take_succ_cons, List.append_assoc, List.singleton_append,
        List.length_cons, Prod.mk.injEq, true_and]
      omega

end cache_impl

/-- A chain of `n` nodes that the pool holds or makes new. -/
def Answers (pool : node_pool Node) (n : Nat) (answer : Option (Answer Node)) : Prop :=
  ∀ a, answer = some a → Disjoint a.grown pool.created ∧ a.nodes.length = n ∧
    (a.nodes : Multiset Node) ≤ pool.free + a.grown.val

namespace cache_impl

variable {pool : node_pool Node} {cache : cache_impl Node}

/-- The nodes of the answer go to the cache or to the user. -/
theorem allocate_nodes_moves {a : Answer Node} {n : Nat} (hanswers : Answers pool n (some a))
    (cache : cache_impl Node) (chain cached : List Node) (given taken : Multiset Node)
    (hcached : cached + taken = cache.m_cached_nodes + given + a.nodes) :
    Moves pool cache ((pool.allocate_nodes (some a) chain).1,
      { cache with m_cached_nodes := cached }) given taken := by
  obtain ⟨hdisjoint, _, hle⟩ := hanswers a rfl
  refine ⟨rfl, a.grown, hdisjoint, rfl, ?_⟩
  show pool.free + a.grown.val - (a.nodes : Multiset Node) + cached + taken = _
  have hsub : pool.free + a.grown.val - (a.nodes : Multiset Node) + a.nodes =
      pool.free + a.grown.val := tsub_add_cancel_of_le hle
  calc pool.free + a.grown.val - (a.nodes : Multiset Node) + cached + taken
      = pool.free + a.grown.val - (a.nodes : Multiset Node) + (cached + taken) := add_assoc _ _ _
    _ = pool.free + a.grown.val - (a.nodes : Multiset Node) + a.nodes +
          (cache.m_cached_nodes + given) := by
        rw [hcached, add_comm _ (a.nodes : Multiset Node), add_assoc]
    _ = pool.free + cache.m_cached_nodes + given + a.grown.val := by
        rw [hsub]
        abel

/-- One node is taken from the cache, or from the pool. -/
theorem cached_allocation_spec {answer : Option (Answer Node)}
    (hanswers : cache.m_cached_nodes = [] →
      Answers pool (cache.m_max_cached_nodes / 2) answer) :
    match cached_allocation pool cache answer with
    | (pool', cache', .node n) => Moves pool cache (pool', cache') 0 {n} ∧
      (cache.m_cached_nodes = [] → 2 ≤ cache.m_max_cached_nodes)
    | (pool', cache', .threw) => Moves pool cache (pool', cache') 0 0 ∧ answer = none
    | (_, _, .pops_empty) =>
      cache.m_cached_nodes = [] ∧ cache.m_max_cached_nodes < 2 ∧ answer ≠ none := by
  unfold cached_allocation
  cases hcached : cache.m_cached_nodes with
  | cons node rest =>
    refine ⟨Moves.of_eq rfl rfl ?_, fun hempty => nomatch hempty⟩
    show pool.free + (rest : Multiset Node) + {node} = _
    rw [hcached, ← Multiset.cons_coe, ← Multiset.singleton_add]
    abel
  | nil =>
    cases answer with
    | none => exact ⟨Moves.of_eq rfl rfl rfl, rfl⟩
    | some a =>
      have hanswers' := hanswers hcached
      have hlength := (hanswers' a rfl).2.1
      cases hnodes : a.nodes with
      | nil =>
        simp only [node_pool.allocate_nodes, hnodes, List.append_nil]
        rw [hnodes, List.length_nil] at hlength
        refine ⟨trivial, ?_, by simp⟩
        omega
      | cons node rest =>
        have hmoves := allocate_nodes_moves hanswers' cache [] rest 0 {node} (by
          rw [hcached, hnodes, ← Multiset.cons_coe, ← Multiset.singleton_add, Multiset.coe_nil]
          abel)
        simp only [node_pool.allocate_nodes, hnodes, List.nil_append]
        simp only [node_pool.allocate_nodes, hnodes] at hmoves
        rw [hnodes, List.length_cons] at hlength
        exact ⟨hmoves, fun _ => by omega⟩

/-- A chain is taken, or given back if the pool has not enough nodes. -/
theorem cached_allocation_n_spec {n : Nat} (chain : List Node) {answer : Option (Answer Node)}
    (hanswers : cache.m_cached_nodes.length < n →
      Answers pool (n - cache.m_cached_nodes.length) answer) :
    match cached_allocation_n pool cache n chain answer with
    | (pool', cache', result) =>
      Moves pool cache (pool', cache') chain (result.getD [] : List Node) ∧
        ∀ chain', result = some chain' → ∃ new, chain' = chain ++ new ∧ new.length = n := by
  simp only [cached_allocation_n, pop_nodes_eq, Nat.zero_add]
  by_cases hless : cache.m_cached_nodes.length < n
  · have hdrop : cache.m_cached_nodes.drop n = [] := List.drop_of_length_le (by omega)
    have htake : cache.m_cached_nodes.take n = cache.m_cached_nodes :=
      List.take_of_length_le (by omega)
    rw [if_pos (by omega), hdrop, htake]
    cases answer with
    | none =>
      refine ⟨Moves.regroup (cached_deallocation_chain_moves pool _ _) ?_,
        fun chain' (hchain' : none = some chain') => nomatch hchain'⟩
      show (([] : List Node) : Multiset Node) +
        ((chain ++ cache.m_cached_nodes : List Node) : Multiset Node) = _
      rw [← Multiset.coe_add, Multiset.coe_nil, zero_add, add_comm]
    | some a =>
      have hanswers' := hanswers hless
      have hlength := (hanswers' a rfl).2.1
      refine ⟨allocate_nodes_moves hanswers' cache (chain ++ cache.m_cached_nodes) [] chain _ ?_, ?_⟩
      · show (([] : List Node) : Multiset Node) +
          ((chain ++ cache.m_cached_nodes ++ a.nodes : List Node) : Multiset Node) = _
        rw [← Multiset.coe_add, ← Multiset.coe_add, Multiset.coe_nil]
        abel
      · intro chain' hchain'
        refine ⟨cache.m_cached_nodes ++ a.nodes, ?_, ?_⟩
        · rw [← Option.some.inj hchain', List.append_assoc]
        · rw [List.length_append]
          omega
  · rw [if_neg (by omega)]
    refine ⟨Moves.of_eq rfl rfl ?_, ?_⟩
    · show pool.free + (cache.m_cached_nodes.drop n : Multiset Node) +
        ((chain ++ cache.m_cached_nodes.take n : List Node) : Multiset Node) = _
      have hsplit : (cache.m_cached_nodes : Multiset Node) =
          cache.m_cached_nodes.take n + cache.m_cached_nodes.drop n := by
        rw [Multiset.coe_add, List.take_append_drop]
      rw [hsplit, ← Multiset.coe_add]
      abel
    · intro chain' hchain'
      refine ⟨cache.m_cached_nodes.take n, (Option.some.inj hchain').symm, ?_⟩
      rw [List.length_take]
      omega

end cache_impl

end interprocess.ipcdetail
