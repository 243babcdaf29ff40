import Interprocess.Allocators.CacheImpl.Members
import Interprocess.Base.Transition

namespace interprocess.ipcdetail

open Transition

namespace CacheState

open cache_impl

variable {κ Node : Type} [DecidableEq κ] [DecidableEq Node] {s : CacheState κ Node}
  {left : List Node → List Node}

/-- The nodes in all caches. -/
def cached (live : Finset κ) (caches : κ → cache_impl Node) : Multiset Node :=
  ∑ id ∈ live, (caches id).m_cached_nodes

/-- Every node that the pool has made is once in the pool, in a cache or with the user,
    and the pool exists exactly while caches refer to it. -/
def Conserved (s : CacheState κ Node) : Prop :=
  match s.pool with
  | none => s.live = ∅ ∧ s.user = 0
  | some pool => s.live.Nonempty ∧ pool.m_usecount = s.live.card ∧
    pool.free + cached s.live s.caches + s.user = pool.created.val

omit [DecidableEq Node] in
/-- What one cache holds, beside the others. -/
theorem exists_cached_update {live : Finset κ} {id : κ} (hid : id ∈ live)
    (caches : κ → cache_impl Node) :
    ∃ others : Multiset Node, ∀ cache, cached live (Function.update caches id cache) =
      others + cache.m_cached_nodes := by
  refine ⟨∑ other ∈ live.erase id, ((caches other).m_cached_nodes : Multiset Node), fun cache => ?_⟩
  rw [cached, ← Finset.sum_erase_add _ _ hid, Function.update_self]
  congr 1
  refine Finset.sum_congr rfl fun other hother => ?_
  rw [Function.update_of_ne (Finset.ne_of_mem_erase hother)]

/-- A member of a cache exchanges nodes with the pool and the user. -/
theorem Conserved.set {pool : node_pool Node} (hs : Conserved s) (hpool : s.pool = some pool)
    {id : κ} (hid : id ∈ s.live) {result : node_pool Node × cache_impl Node}
    {given taken : Multiset Node} (hmoves : Moves pool (s.caches id) result given taken)
    (hgiven : given ≤ s.user) :
    Conserved { s.set id result with user := s.user - given + taken } := by
  rw [Conserved, hpool] at hs
  obtain ⟨hlive, hcount, hsum⟩ := hs
  obtain ⟨grown, hdisjoint, hcreated, hbalance⟩ := hmoves.balance
  obtain ⟨others, hothers⟩ := exists_cached_update hid s.caches
  have hbefore := hothers (s.caches id)
  rw [Function.update_eq_self] at hbefore
  refine ⟨hlive, hmoves.usecount_eq.trans hcount, ?_⟩
  show result.1.free + cached s.live (Function.update s.caches id result.2) +
    (s.user - given + taken) = result.1.created.val
  have hunion : (pool.created ∪ grown).val = pool.created.val + grown.val := by
    rw [← Finset.disjUnion_eq_union _ _ hdisjoint.symm]
    rfl
  have huser : s.user - given + given = s.user := tsub_add_cancel_of_le hgiven
  rw [hothers, hcreated, hunion, ← hsum, hbefore]
  generalize s.user - given = kept at huser ⊢
  calc result.1.free + (others + result.2.m_cached_nodes) + (kept + taken)
      = result.1.free + result.2.m_cached_nodes + taken + others + kept := by abel
    _ = pool.free + (others + (s.caches id).m_cached_nodes) + (kept + given) + grown.val := by
        rw [hbalance]
        abel
    _ = pool.free + (others + (s.caches id).m_cached_nodes) + s.user + grown.val := by rw [huser]

omit [DecidableEq Node] in
theorem cached_insert {live : Finset κ} {id : κ} (hid : id ∉ live) (caches : κ → cache_impl Node)
    (cache : cache_impl Node) :
    cached (insert id live) (Function.update caches id cache) =
      cache.m_cached_nodes + cached live caches := by
  rw [cached, Finset.sum_insert hid, Function.update_self]
  congr 1
  refine Finset.sum_congr rfl fun other hother => ?_
  rw [Function.update_of_ne (ne_of_mem_of_not_mem hother hid)]

omit [DecidableEq Node] in
/-- A cache without nodes is attached. -/
theorem Conserved.attach (hs : Conserved s) {id : κ} (hid : id ∉ s.live) (max_cached_nodes : Nat) :
    Conserved (s.attach id (get_or_create_node_pool s.pool) ⟨[], max_cached_nodes⟩) := by
  unfold Conserved at hs
  refine ⟨Finset.insert_nonempty _ _, ?_⟩
  show (get_or_create_node_pool s.pool).m_usecount = (insert id s.live).card ∧
    (get_or_create_node_pool s.pool).free +
      cached (insert id s.live) (Function.update s.caches id ⟨[], max_cached_nodes⟩) + s.user =
        (get_or_create_node_pool s.pool).created.val
  rw [Finset.card_insert_of_notMem hid, cached_insert hid, Multiset.coe_nil, zero_add]
  cases hpool : s.pool with
  | none =>
    rw [hpool] at hs
    rw [hs.1, hs.2]
    exact ⟨rfl, rfl⟩
  | some pool =>
    rw [hpool] at hs
    exact ⟨congrArg (· + 1) hs.2.1, hs.2.2⟩

omit [DecidableEq Node] in
/-- A cache is detached once the pool has its nodes, and the pool goes with the last one. -/
theorem Conserved.detach {pool pool' : node_pool Node} (hs : Conserved s) (hpool : s.pool = some pool)
    {id : κ} (hid : id ∈ s.live)
    (hfree : pool' = { pool with free := pool.free + (s.caches id).m_cached_nodes })
    (cache : cache_impl Node) : Conserved ((s.set id (pool', cache)).destroy_if_last_link id pool') := by
  rw [Conserved, hpool] at hs
  obtain ⟨hlive, hcount, hsum⟩ := hs
  have hcard := Finset.card_erase_of_mem hid
  have hcached : cached s.live s.caches =
      cached (s.live.erase id) (Function.update s.caches id cache) + (s.caches id).m_cached_nodes := by
    rw [cached, cached, ← Finset.sum_erase_add _ _ hid]
    congr 1
    refine Finset.sum_congr rfl fun other hother => ?_
    rw [Function.update_of_ne (Finset.ne_of_mem_erase hother)]
  have hpos := Finset.card_pos.mpr hlive
  have husecount : pool'.m_usecount = pool.m_usecount := by rw [hfree]
  unfold CacheState.destroy_if_last_link
  split
  · rename_i hmore
    have hmore' : pool'.m_usecount - 1 ≠ 0 := hmore
    have hleft : (s.live.erase id).Nonempty := Finset.card_pos.mp (by omega)
    refine ⟨hleft, ?_, ?_⟩
    · show pool'.m_usecount - 1 = (s.live.erase id).card
      omega
    · show pool'.free + cached (s.live.erase id) (Function.update s.caches id cache) + s.user =
        pool'.created.val
      have hnodes : pool'.free = pool.free + (s.caches id).m_cached_nodes := by rw [hfree]
      have hcreated : pool'.created = pool.created := by rw [hfree]
      rw [hnodes, hcreated, ← hsum, hcached]
      abel
  · rename_i hlast
    have hlast' : pool'.m_usecount - 1 = 0 := not_not.mp hlast
    have hleft : s.live.erase id = ∅ := Finset.card_eq_zero.mp (by omega)
    exact ⟨hleft, rfl⟩

/-- The calls that the caller may make: on caches that are alive, with nodes that the
    user holds, and with an answer of the pool to what the cache asks. -/
def Enabled (s : CacheState κ Node) : CacheCall κ Node → Prop
  | .construct id _ => id ∉ s.live
  | .copy other id => other ∈ s.live ∧ id ∉ s.live
  | .move other id => other ∈ s.live ∧ id ∉ s.live
  | .destruct id => id ∈ s.live
  | .cached_allocation id answer => id ∈ s.live ∧
    ((s.caches id).m_cached_nodes = [] →
      ∀ pool, s.pool = some pool →
        Answers pool ((s.caches id).m_max_cached_nodes / 2) answer)
  | .cached_allocation_n id n chain answer => id ∈ s.live ∧ (chain : Multiset Node) ≤ s.user ∧
    ((s.caches id).m_cached_nodes.length < n →
      ∀ pool, s.pool = some pool →
        Answers pool (n - (s.caches id).m_cached_nodes.length) answer)
  | .cached_deallocation id ptr => id ∈ s.live ∧ ptr ∈ s.user
  | .cached_deallocation_chain id chain => id ∈ s.live ∧ (chain : Multiset Node) ≤ s.user
  | .set_max_cached_nodes id _ => id ∈ s.live
  | .deallocate_all_cached_nodes id => id ∈ s.live
  | .swap id other => id ∈ s.live ∧ other ∈ s.live

/-- A cache without nodes asks the pool for at least one. -/
def Refills (s : CacheState κ Node) : CacheCall κ Node → Prop
  | .cached_allocation id answer =>
    (s.caches id).m_cached_nodes = [] → answer ≠ none → 2 ≤ (s.caches id).m_max_cached_nodes
  | _ => True

/-- A cache that is given back as a whole has no nodes left: the cache does not clear its
    chain, so the pool has to. -/
def Empties (left : List Node → List Node) (s : CacheState κ Node) : CacheCall κ Node → Prop
  | .deallocate_all_cached_nodes id =>
    (s.caches id).m_cached_nodes ≠ [] → left (s.caches id).m_cached_nodes = []
  | _ => True

/-- The calls of the runs in which the nodes are conserved. -/
def Allowed (left : List Node → List Node) (s : CacheState κ Node) (c : CacheCall κ Node) : Prop :=
  Enabled s c ∧ Empties left s c

omit [DecidableEq κ] [DecidableEq Node] in
/-- While a cache is alive there is a pool. -/
theorem Conserved.exists_pool (hs : Conserved s) {id : κ} (hid : id ∈ s.live) :
    ∃ pool, s.pool = some pool := by
  unfold Conserved at hs
  cases hpool : s.pool with
  | none =>
    rw [hpool] at hs
    rw [hs.1] at hid
    exact absurd hid (Finset.notMem_empty id)
  | some pool => exact ⟨pool, rfl⟩

/-- A member that takes nothing from the user. -/
theorem Conserved.set_zero {pool : node_pool Node} (hs : Conserved s) (hpool : s.pool = some pool)
    {id : κ} (hid : id ∈ s.live) {result : node_pool Node × cache_impl Node}
    (hmoves : Moves pool (s.caches id) result 0 0) : Conserved (s.set id result) := by
  have hset := hs.set hpool hid hmoves (Multiset.zero_le _)
  rwa [tsub_zero, add_zero] at hset

omit [DecidableEq Node] in
/-- The nodes of the moved cache change hands. -/
theorem Conserved.move {pool : node_pool Node} (hs : Conserved s) (hpool : s.pool = some pool)
    {other id : κ} (hother : other ∈ s.live) (hid : id ∉ s.live) :
    Conserved
      { s.attach id pool.inc_ref_count (s.caches other) with
        caches := Function.update (s.attach id pool.inc_ref_count (s.caches other)).caches other
          { s.caches other with m_cached_nodes := [] } } := by
  rw [Conserved, hpool] at hs
  obtain ⟨_, hcount, hsum⟩ := hs
  have hne : other ≠ id := ne_of_mem_of_not_mem hother hid
  obtain ⟨others, hothers⟩ := exists_cached_update hother s.caches
  have hbefore := hothers (s.caches other)
  rw [Function.update_eq_self] at hbefore
  refine ⟨Finset.insert_nonempty _ _, ?_, ?_⟩
  · show pool.m_usecount + 1 = (insert id s.live).card
    rw [Finset.card_insert_of_notMem hid, hcount]
  · show pool.free + cached (insert id s.live) (Function.update
      (Function.update s.caches id (s.caches other)) other
        { s.caches other with m_cached_nodes := [] }) + s.user = pool.created.val
    rw [Function.update_comm hne.symm, cached_insert hid, hothers, ← hsum, hbefore, Multiset.coe_nil,
      add_zero, add_comm others]

omit [DecidableEq Node] in
/-- Swapping two caches exchanges what they hold. -/
theorem Conserved.swap (hs : Conserved s) {id other : κ} (hid : id ∈ s.live)
    (hother : other ∈ s.live) :
    Conserved
      { s with
        caches := Function.update (Function.update s.caches id (s.caches other)) other
          (s.caches id) } := by
  have hcached : cached s.live (Function.update (Function.update s.caches id (s.caches other)) other
      (s.caches id)) = cached s.live s.caches := by
    by_cases hsame : other = id
    · rw [hsame, Function.update_eq_self, Function.update_eq_self]
    · obtain ⟨rest, hrest⟩ := exists_cached_update hother (Function.update s.caches id (s.caches other))
      obtain ⟨rest', hrest'⟩ := exists_cached_update hid s.caches
      have hbefore := hrest' (s.caches id)
      have hmiddle := hrest (s.caches other)
      have hstays : Function.update s.caches id (s.caches other) other = s.caches other :=
        Function.update_of_ne hsame _ _
      rw [Function.update_eq_self] at hbefore
      nth_rewrite 2 [← hstays] at hmiddle
      rw [Function.update_eq_self, hrest'] at hmiddle
      rw [hrest, hbefore, add_right_cancel hmiddle]
  unfold Conserved at hs ⊢
  cases hpool : s.pool with
  | none =>
    rw [hpool] at hs
    exact hs
  | some pool =>
    rw [hpool] at hs
    refine ⟨hs.1, hs.2.1, ?_⟩
    show pool.free + cached s.live _ + s.user = pool.created.val
    rw [hcached]
    exact hs.2.2

/-- Every call keeps the nodes and the references. -/
theorem Conserved.call (hs : Conserved s) {c : CacheCall κ Node} (hallowed : Allowed left s c)
    {t : CacheState κ Node} (hcall : s.call left c = some t) : Conserved t := by
  obtain ⟨henabled, hempties⟩ := hallowed
  cases c with
  | construct id max_cached_nodes =>
    rw [← Option.some.inj hcall]
    exact hs.attach henabled max_cached_nodes
  | copy other id =>
    obtain ⟨pool, hpool⟩ := hs.exists_pool henabled.1
    rw [CacheState.call, hpool] at hcall
    have hattach := hs.attach henabled.2 (s.caches other).m_max_cached_nodes
    rw [hpool] at hattach
    rw [← Option.some.inj hcall]
    exact hattach
  | move other id =>
    obtain ⟨pool, hpool⟩ := hs.exists_pool henabled.1
    rw [CacheState.call, hpool] at hcall
    rw [← Option.some.inj hcall]
    exact hs.move hpool henabled.1 henabled.2
  | destruct id =>
    obtain ⟨pool, hpool⟩ := hs.exists_pool henabled
    rw [CacheState.call, hpool] at hcall
    rw [← Option.some.inj hcall]
    exact hs.detach hpool henabled (deallocate_all_cached_nodes_pool left pool (s.caches id)) _
  | cached_allocation id answer =>
    obtain ⟨pool, hpool⟩ := hs.exists_pool henabled.1
    rw [CacheState.call, hpool, Option.bind_some] at hcall
    have hspec := cached_allocation_spec fun hempty => henabled.2 hempty pool hpool
    split at hcall <;> rename_i hresult <;> rw [hresult] at hspec
    · have hset := hs.set hpool henabled.1 hspec.1 (Multiset.zero_le _)
      rw [tsub_zero] at hset
      rw [← Option.some.inj hcall]
      exact hset
    · rw [← Option.some.inj hcall]
      exact hs.set_zero hpool henabled.1 hspec.1
    · exact absurd hcall (by simp)
  | cached_allocation_n id n chain answer =>
    obtain ⟨pool, hpool⟩ := hs.exists_pool henabled.1
    rw [CacheState.call, hpool] at hcall
    have hspec := cached_allocation_n_spec chain fun hless => henabled.2.2 hless pool hpool
    rw [← Option.some.inj hcall]
    exact hs.set hpool henabled.1 hspec.1 henabled.2.1
  | cached_deallocation id ptr =>
    obtain ⟨pool, hpool⟩ := hs.exists_pool henabled.1
    rw [CacheState.call, hpool] at hcall
    have hset := hs.set hpool henabled.1 (cached_deallocation_moves pool (s.caches id) ptr)
      (Multiset.singleton_le.mpr henabled.2)
    rw [add_zero] at hset
    rw [← Option.some.inj hcall]
    exact hset
  | cached_deallocation_chain id chain =>
    obtain ⟨pool, hpool⟩ := hs.exists_pool henabled.1
    rw [CacheState.call, hpool] at hcall
    have hset := hs.set hpool henabled.1 (cached_deallocation_chain_moves pool (s.caches id) chain)
      henabled.2
    rw [add_zero] at hset
    rw [← Option.some.inj hcall]
    exact hset
  | set_max_cached_nodes id newmax =>
    obtain ⟨pool, hpool⟩ := hs.exists_pool henabled
    rw [CacheState.call, hpool] at hcall
    rw [← Option.some.inj hcall]
    exact hs.set_zero hpool henabled (set_max_cached_nodes_moves pool (s.caches id) newmax)
  | deallocate_all_cached_nodes id =>
    obtain ⟨pool, hpool⟩ := hs.exists_pool henabled
    rw [CacheState.call, hpool] at hcall
    rw [← Option.some.inj hcall]
    exact hs.set_zero hpool henabled (deallocate_all_cached_nodes_moves pool (s.caches id) hempties)
  | swap id other =>
    rw [← Option.some.inj hcall]
    exact hs.swap henabled.1 henabled.2

/-- Only an empty request can leave nothing to pop. -/
theorem Conserved.call_isSome_iff (hs : Conserved s) {c : CacheCall κ Node}
    (henabled : Enabled s c) : (s.call left c).isSome = true ↔ Refills s c := by
  have hmapped : ∀ {id : κ}, id ∈ s.live → ∀ f : node_pool Node → CacheState κ Node,
      (s.pool.map f).isSome = true := by
    intro id hid f
    obtain ⟨pool, hpool⟩ := hs.exists_pool hid
    rw [hpool]
    rfl
  cases c with
  | construct id max_cached_nodes => exact iff_of_true rfl trivial
  | copy other id => exact iff_of_true (hmapped henabled.1 _) trivial
  | move other id => exact iff_of_true (hmapped henabled.1 _) trivial
  | destruct id => exact iff_of_true (hmapped henabled _) trivial
  | cached_allocation id answer =>
    obtain ⟨pool, hpool⟩ := hs.exists_pool henabled.1
    have hspec := cached_allocation_spec fun hempty => henabled.2 hempty pool hpool
    rw [CacheState.call, hpool, Option.bind_some]
    split <;> rename_i hresult <;> rw [hresult] at hspec
    · exact iff_of_true rfl fun hempty _ => hspec.2 hempty
    · exact iff_of_true rfl fun _ hanswer => absurd hspec.2 hanswer
    · refine iff_of_false Bool.false_ne_true fun hrefills => ?_
      have hmax := hrefills hspec.1 hspec.2.2
      omega
  | cached_allocation_n id n chain answer => exact iff_of_true (hmapped henabled.1 _) trivial
  | cached_deallocation id ptr => exact iff_of_true (hmapped henabled.1 _) trivial
  | cached_deallocation_chain id chain => exact iff_of_true (hmapped henabled.1 _) trivial
  | set_max_cached_nodes id newmax => exact iff_of_true (hmapped henabled _) trivial
  | deallocate_all_cached_nodes id => exact iff_of_true (hmapped henabled _) trivial
  | swap id other => exact iff_of_true rfl trivial

/-- Giving a cache back as a whole conserves the nodes exactly if the pool empties the
    chain: otherwise the cache still has nodes that the pool has. -/
theorem Conserved.deallocate_all_iff (hs : Conserved s) {id : κ} (hid : id ∈ s.live)
    {t : CacheState κ Node} (hcall : s.call left (.deallocate_all_cached_nodes id) = some t) :
    Conserved t ↔ Empties left s (.deallocate_all_cached_nodes id) := by
  refine ⟨fun hafter hnodes => ?_, fun hempties =>
    hs.call (show Allowed left s (.deallocate_all_cached_nodes id) from ⟨hid, hempties⟩) hcall⟩
  obtain ⟨pool, hpool⟩ := hs.exists_pool hid
  rw [CacheState.call, hpool] at hcall
  rw [Conserved, hpool] at hs
  obtain ⟨others, hothers⟩ := exists_cached_update hid s.caches
  have hbefore := hothers (s.caches id)
  rw [Function.update_eq_self] at hbefore
  have hresult : cache_impl.deallocate_all_cached_nodes left pool (s.caches id) =
      (pool.deallocate_nodes (s.caches id).m_cached_nodes,
        { s.caches id with m_cached_nodes := left (s.caches id).m_cached_nodes }) := if_neg hnodes
  have hset : Conserved (s.set id (cache_impl.deallocate_all_cached_nodes left pool (s.caches id))) := by
    rw [← Option.some.inj hcall] at hafter
    exact hafter
  rw [hresult] at hset
  have hsum : pool.free + (s.caches id).m_cached_nodes + cached s.live (Function.update s.caches id
      { s.caches id with m_cached_nodes := left (s.caches id).m_cached_nodes }) + s.user =
        pool.created.val := hset.2.2
  rw [hothers, ← hs.2.2, hbefore] at hsum
  have htwice : pool.free + (others + (s.caches id).m_cached_nodes) + s.user +
      (left (s.caches id).m_cached_nodes : Multiset Node) =
        pool.free + (others + (s.caches id).m_cached_nodes) + s.user :=
    calc _ = pool.free + (s.caches id).m_cached_nodes +
          (others + (left (s.caches id).m_cached_nodes : Multiset Node)) + s.user := by abel
      _ = _ := hsum
  exact (Multiset.coe_eq_zero _).mp (add_eq_left.mp htwice)

/-- What holds in every state: the nodes are conserved, a call pops no empty chain
    exactly if it refills the cache, a cache is bounded after a deallocation, giving it back
    as a whole conserves the nodes exactly if the pool empties its chain, and the last cache
    returns its nodes before the pool goes. -/
structure Sound (left : List Node → List Node) (s : CacheState κ Node) : Prop where
  conserved : Conserved s
  defined : ∀ c, Enabled s c → ((s.call left c).isSome = true ↔ Refills s c)
  bounded : ∀ id ptr t, s.call left (.cached_deallocation id ptr) = some t → Bounded (t.caches id)
  bounded_chain : ∀ id chain t, s.call left (.cached_deallocation_chain id chain) = some t →
    Bounded (t.caches id)
  given_back : ∀ id t, id ∈ s.live → s.call left (.deallocate_all_cached_nodes id) = some t →
    (Conserved t ↔ Empties left s (.deallocate_all_cached_nodes id))
  returned : ∀ id pool, s.live = {id} → s.pool = some pool →
    (cache_impl.deallocate_all_cached_nodes left pool (s.caches id)).1.free + s.user =
      pool.created.val

theorem Conserved.sound (hs : Conserved s) : Sound left s where
  conserved := hs
  defined _ henabled := hs.call_isSome_iff henabled
  bounded id ptr t hcall := by
    obtain ⟨pool, _, rfl⟩ := Option.map_eq_some_iff.mp hcall
    show Bounded (Function.update s.caches id _ id)
    rw [Function.update_self]
    exact cached_deallocation_bounded pool (s.caches id) ptr
  bounded_chain id chain t hcall := by
    obtain ⟨pool, _, rfl⟩ := Option.map_eq_some_iff.mp hcall
    show Bounded (Function.update s.caches id _ id)
    rw [Function.update_self]
    exact cached_deallocation_chain_bounded pool (s.caches id) chain
  given_back _ _ hid hcall := hs.deallocate_all_iff hid hcall
  returned id pool hlive hpool := by
    rw [Conserved, hpool, hlive, cached, Finset.sum_singleton] at hs
    rw [deallocate_all_cached_nodes_pool]
    exact hs.2.2

/-- In every run of calls on caches of one pool every state is sound, if the pool empties
    the chains of the caches that are given back. -/
theorem cache_nodes_conserved (left : List Node → List Node) (caches : κ → cache_impl Node)
    (hrun : Reaches (call left) (Allowed left) ⟨none, ∅, caches, 0⟩ s) : Sound left s :=
  Conserved.sound (hrun.invariant ⟨rfl, rfl⟩
    fun _ _ _ hs hallowed hcall => hs.call hallowed hcall)

/-- A cache that keeps at most 64 nodes, given back while it is empty, and a node that it
    gave to the user; the pool leaves the chains as they are. -/
theorem cache_nodes_conserved_one_node : ∃ s : CacheState Nat Nat, s.user = {7} ∧ Sound id s := by
  have hrun : Reaches (call id) (Allowed id) (⟨none, ∅, fun _ => ⟨[], 0⟩, 0⟩ : CacheState Nat Nat) _ :=
    .tail (a := .cached_allocation_n 0 1 [] (some ⟨{7}, [7]⟩))
      (.tail (a := .deallocate_all_cached_nodes 0)
        (.tail (a := .construct 0 64) .refl ⟨Finset.notMem_empty 0, trivial⟩ rfl)
        ⟨Finset.mem_singleton_self 0, fun hnodes => absurd rfl hnodes⟩ rfl)
      ⟨⟨by decide, by decide, fun _ pool hpool a hanswer => by
        obtain rfl := Option.some.inj hanswer
        obtain rfl := Option.some.inj hpool
        exact ⟨by decide, by decide, by decide⟩⟩, trivial⟩ rfl
  exact ⟨_, by decide, cache_nodes_conserved id _ hrun⟩

/-- With a maximum of 1 an empty cache asks for no node, and pops one. -/
theorem cached_allocation_pops_empty :
    ¬ ∀ s : CacheState Nat Nat,
      Reaches (call fun _ => []) Enabled ⟨none, ∅, fun _ => ⟨[], 0⟩, 0⟩ s →
        ∀ c, Enabled s c → (s.call (fun _ => []) c).isSome = true := by
  intro hall
  have hrun : Reaches (call fun _ => []) Enabled
      (⟨none, ∅, fun _ => ⟨[], 0⟩, 0⟩ : CacheState Nat Nat) _ :=
    .tail (a := .construct 0 1) .refl (Finset.notMem_empty 0) rfl
  refine absurd (hall _ hrun (.cached_allocation 0 (some ⟨∅, []⟩)) ⟨by decide, ?_⟩) (by decide)
  intro _ pool hpool a hanswer
  obtain rfl := Option.some.inj hanswer
  obtain rfl := Option.some.inj hpool
  exact ⟨by decide, by decide, by decide⟩

end CacheState

end interprocess.ipcdetail
