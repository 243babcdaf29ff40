import Mathlib.Algebra.BigOperators.Group.Multiset.Defs
import Mathlib.Algebra.BigOperators.Group.Finset.Basic
import Mathlib.Algebra.Order.Group.Multiset

namespace interprocess.ipcdetail

/-- A shared node pool: the number of attached caches, the nodes it has made and those
    of them that it holds. -/
structure node_pool (Node : Type) where
  m_usecount : Nat
  free : Multiset Node
  created : Finset Node

/-- What the pool answers to `allocate_nodes`: the nodes it makes from new memory, and
    those it gives away. -/
structure Answer (Node : Type) where
  grown : Finset Node
  nodes : List Node

namespace node_pool

variable {Node : Type} [DecidableEq Node]

def inc_ref_count (pool : node_pool Node) : node_pool Node :=
  { pool with m_usecount := pool.m_usecount + 1 }

def dec_ref_count (pool : node_pool Node) : node_pool Node :=
  { pool with m_usecount := pool.m_usecount - 1 }

/-- Appends the nodes of the answer to the chain, or throws and leaves it. -/
def allocate_nodes (pool : node_pool Node) (answer : Option (Answer Node)) (chain : List Node) :
    node_pool Node × Option (List Node) :=
  match answer with
  | none => (pool, none)
  | some a =>
    ({ pool with
        free := pool.free + a.grown.val - a.nodes
        created := pool.created ∪ a.grown }, some (chain ++ a.nodes))

def deallocate_nodes (pool : node_pool Node) (chain : List Node) : node_pool Node :=
  { pool with free := pool.free + chain }

end node_pool

/-- A cache of nodes. All caches are attached to the one pool of the segment. -/
structure cache_impl (Node : Type) where
  m_cached_nodes : List Node
  m_max_cached_nodes : Nat

/-- What an allocation of one node comes to. -/
inductive Outcome (Node : Type) where
  | node (n : Node)
  | threw
  | pops_empty

namespace cache_impl

variable {Node : Type} [DecidableEq Node]

def cached_allocation (pool : node_pool Node) (cache : cache_impl Node)
    (answer : Option (Answer Node)) : node_pool Node × cache_impl Node × Outcome Node :=
  match cache.m_cached_nodes with
  | node :: rest => (pool, { cache with m_cached_nodes := rest }, .node node)
  | [] =>
    match pool.allocate_nodes answer [] with
    | (pool, none) => (pool, cache, .threw)
    | (pool, some (node :: rest)) => (pool, { cache with m_cached_nodes := rest }, .node node)
    | (pool, some []) => (pool, cache, .pops_empty)

/-- The first `n` nodes are cut from the cache at once, as a chain that nobody uses after
    the pool got it. -/
def priv_deallocate_n_nodes (pool : node_pool Node) (cache : cache_impl Node) (n : Nat) :
    node_pool Node × cache_impl Node :=
  (pool.deallocate_nodes (cache.m_cached_nodes.take n),
    { cache with m_cached_nodes := cache.m_cached_nodes.drop n })

/-- A full cache is cut to half of its maximum. -/
def make_room (pool : node_pool Node) (cache : cache_impl Node) :
    node_pool Node × cache_impl Node :=
  if cache.m_max_cached_nodes ≤ cache.m_cached_nodes.length then
    priv_deallocate_n_nodes pool cache
      (cache.m_cached_nodes.length - cache.m_max_cached_nodes / 2)
  else (pool, cache)

/-- One node is put into the cache, after there is room. -/
def cached_deallocation (pool : node_pool Node) (cache : cache_impl Node) (ptr : Node) :
    node_pool Node × cache_impl Node :=
  let (pool, cache) := make_room pool cache
  (pool, { cache with m_cached_nodes := ptr :: cache.m_cached_nodes })

/-- A chain is put into the cache, and room is made after it. -/
def cached_deallocation_chain (pool : node_pool Node) (cache : cache_impl Node)
    (chain : List Node) : node_pool Node × cache_impl Node :=
  make_room pool { cache with m_cached_nodes := chain ++ cache.m_cached_nodes }

/-- The loop that moves cached nodes to the chain and counts them. -/
def pop_nodes : List Node → Nat → List Node → Nat → List Node × List Node × Nat
  | [], _, chain, allocated => ([], chain, allocated)
  | cached, 0, chain, allocated => (cached, chain, allocated)
  | node :: rest, count + 1, chain, allocated =>
    pop_nodes rest count (chain ++ [node]) (allocated + 1)

/-- Appends `n` nodes to the chain, or throws and deallocates the chain. -/
def cached_allocation_n (pool : node_pool Node) (cache : cache_impl Node) (n : Nat)
    (chain : List Node) (answer : Option (Answer Node)) :
    node_pool Node × cache_impl Node × Option (List Node) :=
  let (rest, chain, allocated) := pop_nodes cache.m_cached_nodes n chain 0
  let cache := { cache with m_cached_nodes := rest }
  if allocated ≠ n then
    match pool.allocate_nodes answer chain with
    | (pool, some chain) => (pool, cache, some chain)
    | (pool, none) =>
      let (pool, cache) := cached_deallocation_chain pool cache chain
      (pool, cache, none)
  else (pool, cache, some chain)

def priv_deallocate_remaining_nodes (pool : node_pool Node) (cache : cache_impl Node) :
    node_pool Node × cache_impl Node :=
  if cache.m_max_cached_nodes < cache.m_cached_nodes.length then
    priv_deallocate_n_nodes pool cache (cache.m_cached_nodes.length - cache.m_max_cached_nodes)
  else (pool, cache)

def set_max_cached_nodes (pool : node_pool Node) (cache : cache_impl Node) (newmax : Nat) :
    node_pool Node × cache_impl Node :=
  priv_deallocate_remaining_nodes pool { cache with m_max_cached_nodes := newmax }

/-- The pool gets the chain of the cache itself, and `left` is what it leaves of it. The
    cache does not clear it. -/
def deallocate_all_cached_nodes (left : List Node → List Node) (pool : node_pool Node)
    (cache : cache_impl Node) : node_pool Node × cache_impl Node :=
  if cache.m_cached_nodes = [] then (pool, cache)
  else (pool.deallocate_nodes cache.m_cached_nodes,
    { cache with m_cached_nodes := left cache.m_cached_nodes })

end cache_impl

/-- The pool of the segment, the caches that are alive and the nodes that the user
    holds. -/
structure CacheState (κ Node : Type) where
  pool : Option (node_pool Node)
  live : Finset κ
  caches : κ → cache_impl Node
  user : Multiset Node

/-- A call of a constructor, of the destructor or of a member of a cache. -/
inductive CacheCall (κ Node : Type) where
  | construct (id : κ) (max_cached_nodes : Nat)
  | copy (other id : κ)
  | move (other id : κ)
  | destruct (id : κ)
  | cached_allocation (id : κ) (answer : Option (Answer Node))
  | cached_allocation_n (id : κ) (n : Nat) (chain : List Node) (answer : Option (Answer Node))
  | cached_deallocation (id : κ) (ptr : Node)
  | cached_deallocation_chain (id : κ) (chain : List Node)
  | set_max_cached_nodes (id : κ) (newmax : Nat)
  | deallocate_all_cached_nodes (id : κ)
  | swap (id other : κ)

namespace CacheState

variable {κ Node : Type} [DecidableEq κ] [DecidableEq Node]

/-- `find_or_construct` makes a pool without references if there is none. -/
def get_or_create_node_pool (pool : Option (node_pool Node)) : node_pool Node :=
  (pool.getD ⟨0, 0, ∅⟩).inc_ref_count

/-- The cache `id` and the pool after a member of the cache. -/
def set (s : CacheState κ Node) (id : κ) (result : node_pool Node × cache_impl Node) :
    CacheState κ Node :=
  { s with
    pool := some result.1
    caches := Function.update s.caches id result.2 }

/-- A new cache, with one more reference to the pool. -/
def attach (s : CacheState κ Node) (id : κ) (pool : node_pool Node) (cache : cache_impl Node) :
    CacheState κ Node :=
  { s with
    pool := some pool
    live := insert id s.live
    caches := Function.update s.caches id cache }

/-- The last reference takes the pool with it, and the nodes of the pool. -/
def destroy_if_last_link (s : CacheState κ Node) (id : κ) (pool : node_pool Node) :
    CacheState κ Node :=
  if pool.dec_ref_count.m_usecount ≠ 0 then
    { s with
      pool := some pool.dec_ref_count
      live := s.live.erase id }
  else
    { s with
      pool := none
      live := s.live.erase id
      user := 0 }

open cache_impl

/-- The state after a call. A call that pops a node from an empty chain has none. -/
def call (left : List Node → List Node) (s : CacheState κ Node) :
    CacheCall κ Node → Option (CacheState κ Node)
  | .construct id max_cached_nodes =>
    some (s.attach id (get_or_create_node_pool s.pool) ⟨[], max_cached_nodes⟩)
  | .copy other id => s.pool.map fun pool =>
    s.attach id pool.inc_ref_count ⟨[], (s.caches other).m_max_cached_nodes⟩
  | .move other id => s.pool.map fun pool =>
    let moved := s.attach id pool.inc_ref_count (s.caches other)
    { moved with
      caches := Function.update moved.caches other
        { s.caches other with m_cached_nodes := [] } }
  | .destruct id => s.pool.map fun pool =>
    let result := deallocate_all_cached_nodes left pool (s.caches id)
    (s.set id result).destroy_if_last_link id result.1
  | .cached_allocation id answer => s.pool.bind fun pool =>
    match cached_allocation pool (s.caches id) answer with
    | (pool, cache, .node n) => some { s.set id (pool, cache) with user := s.user + {n} }
    | (pool, cache, .threw) => some (s.set id (pool, cache))
    | (_, _, .pops_empty) => none
  | .cached_allocation_n id n chain answer => s.pool.map fun pool =>
    let (pool, cache, result) := cached_allocation_n pool (s.caches id) n chain answer
    { s.set id (pool, cache) with user := s.user - chain + (result.getD [] : List Node) }
  | .cached_deallocation id ptr => s.pool.map fun pool =>
    { s.set id (cached_deallocation pool (s.caches id) ptr) with user := s.user - {ptr} }
  | .cached_deallocation_chain id chain => s.pool.map fun pool =>
    { s.set id (cached_deallocation_chain pool (s.caches id) chain) with user := s.user - chain }
  | .set_max_cached_nodes id newmax => s.pool.map fun pool =>
    s.set id (set_max_cached_nodes pool (s.caches id) newmax)
  | .deallocate_all_cached_nodes id => s.pool.map fun pool =>
    s.set id (deallocate_all_cached_nodes left pool (s.caches id))
  | .swap id other =>
    some
      { s with
        caches := Function.update (Function.update s.caches id (s.caches other)) other
          (s.caches id) }

end CacheState

end interprocess.ipcdetail
