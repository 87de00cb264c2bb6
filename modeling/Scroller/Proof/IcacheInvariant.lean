import Scroller.Icache
import Scroller.Proof.IhashRefinement
import Scroller.Proof.Ilist2Layout

/-!
# The invariant of the LRU cache

The hash table and the list hold the same keys, and every entry points at the list node of its key. A
touch is made of four moves: a node goes to the front, a key is evicted, a key enters the table, and a
key that entered the table is put in front of the list. Each of them is one lemma; the caches for files
and pages are built from the same moves.
-/

namespace Scroller.Icache

variable {V : Type}

/-- The table refines `m`, the list is `l` with `fl` free, and both hold the same keys. -/
structure Inv (cache : Icache V) (m : BucketMap Int64 (Entry V)) (l fl : List Nat) : Prop where
  hash : cache.hash.Refines m
  list : cache.list.Layout l fl
  size : cache.list.listsz = cache.hash.bucketsz + cache.hash.chainsz
  stored : ∀ i ∈ l, ∃ v, m.lookup (cache.list.values i) = some ⟨v, some i⟩
  covered : ∀ key, m.lookup key ≠ none → key ∈ l.map cache.list.values

namespace Inv

variable {cache : Icache V} {m : BucketMap Int64 (Entry V)} {l fl : List Nat} {key : Int64}

theorem values_inj (h : cache.Inv m l fl) {i j : Nat} (hi : i ∈ l) (hj : j ∈ l)
    (heq : cache.list.values i = cache.list.values j) : i = j := by
  obtain ⟨v, hv⟩ := h.stored i hi
  obtain ⟨w, hw⟩ := h.stored j hj
  rw [heq, hw] at hv
  have hentry := Option.some.inj hv
  have hidx := congrArg Entry.lruIdx hentry
  exact (Option.some.inj hidx).symm

theorem nodup_list (h : cache.Inv m l fl) : l.Nodup := (List.nodup_append.mp h.list.nodup).1

theorem nodup_order (h : cache.Inv m l fl) : (l.map cache.list.values).Nodup :=
  List.Nodup.map_on (fun _ hi _ hj heq => h.values_inj hi hj heq) h.nodup_list

theorem mem_order (h : cache.Inv m l fl) :
    key ∈ l.map cache.list.values ↔ m.lookup key ≠ none := by
  refine ⟨fun hmem => ?_, h.covered key⟩
  obtain ⟨i, hi, rfl⟩ := List.mem_map.mp hmem
  obtain ⟨v, hv⟩ := h.stored i hi
  rw [hv]
  exact Option.some_ne_none _

theorem length_list (h : cache.Inv m l fl) : l.length = m.keys.length := by
  rw [← BucketMap.length_eq_of_mem_iff h.hash.wf h.nodup_order fun key => h.mem_order,
    List.length_map]

theorem listsz_eq (h : cache.Inv m l fl) : cache.list.listsz = m.size + cache.hash.chainsz := by
  rw [h.size, h.hash.size_eq]

/-- Where the table has room for a new key, the list has a free node for it. -/
theorem exists_free (h : cache.Inv m l fl) (hroom : m.Room key) : ∃ new fl', fl = new :: fl' := by
  have hlt := BucketMap.length_keys_lt h.hash.wf hroom
  have hlen := h.list.length_add
  rw [h.listsz_eq, h.length_list] at hlen
  cases fl with
  | nil =>
      simp only [List.length_nil] at hlen
      omega
  | cons new fl' => exact ⟨new, fl', rfl⟩

/-- The list is full when the table is: no empty bucket and no free pool node. -/
theorem full_iff (h : cache.Inv m l fl) :
    l.length = cache.hash.bucketsz + cache.hash.chainsz
      ↔ m.free = 0 ∧ ∀ b < m.size, m.entries b ≠ [] := by
  rw [← BucketMap.length_keys_eq_iff h.hash.wf, h.length_list, h.hash.size_eq]

theorem getFn_of_mem (h : cache.Inv m l fl) {i : Nat} (hi : i ∈ l) :
    ∃ e, cache.hash.getFn (cache.list.values i) = .ok (some e)
      ∧ (cache.hash.node e).data.lruIdx = some i := by
  obtain ⟨v, hv⟩ := h.stored i hi
  obtain ⟨e, hget, hdata⟩ := h.hash.getFn_some hv
  exact ⟨e, hget, by rw [hdata]⟩

end Inv

theorem inv_clear (cache : Icache V) (hpos : 0 < cache.hash.bucketsz)
    (hsize : cache.list.listsz = cache.hash.bucketsz + cache.hash.chainsz)
    (hashFn : Option HashFn) :
    (cache.clear hashFn).Inv (cache.hash.clear hashFn).emptyBuckets []
      (List.range cache.list.listsz) := by
  refine ⟨Ihash.refines_clear cache.hash hpos hashFn, Ilist2.layout_clear cache.list, hsize, ?_, ?_⟩
  · intro i hi
    simp at hi
  · intro k hk
    exact absurd (Ihash.lookup_emptyBuckets _ k) hk

theorem inv_init {buckets chains : Nat → Ihash.Node (Entry V)} {nodes : Nat → Ilist2.Node Int64}
    {bucketsz chainsz : Nat} {hashFn : Option HashFn} {cache : Icache V}
    (hinit : initFn buckets chains nodes bucketsz chainsz hashFn = some cache) :
    ∃ m fl, cache.Inv m [] fl := by
  unfold initFn Ihash.initFn at hinit
  split at hinit
  · cases hinit
  · rename_i hne
    cases hinit
    exact ⟨_, _, inv_clear ⟨_, _⟩ (Nat.pos_of_ne_zero hne) rfl hashFn⟩

/-! ### The moves of a touch -/

section Moves

variable {cache : Icache V} {m : BucketMap Int64 (Entry V)} {l fl : List Nat} {key : Int64}

theorem Inv.moveFront (h : cache.Inv m l fl) (build : Build) {e : Slot}
    (hget : cache.hash.getFn key = .ok (some e)) :
    ∃ list' init idx rest, l = init ++ idx :: rest ∧ cache.list.values idx = key
      ∧ (cache.hash.node e).data.lruIdx = some idx
      ∧ cache.list.moveFrontByIdx build (cache.hash.node e).data.lruIdx = .ok list'
      ∧ Inv { cache with list := list' } m (idx :: (init ++ rest)) fl
      ∧ list'.values = cache.list.values := by
  obtain ⟨-, hkey, -, hlookup⟩ := h.hash.of_getFn hget
  obtain ⟨idx, hidx, hval⟩ := List.mem_map.mp (h.covered key (by rw [hlookup]; simp))
  obtain ⟨init, rest, rfl⟩ := List.append_of_mem hidx
  have hlru : (cache.hash.node e).data.lruIdx = some idx := by
    obtain ⟨v, hv⟩ := h.stored idx hidx
    rw [hval, hlookup] at hv
    rw [Option.some.inj hv]
  obtain ⟨list', hmove, hlayout, hvalues, hsz⟩ := h.list.moveFrontByIdx build
  have hperm : (idx :: (init ++ rest)).Perm (init ++ idx :: rest) := List.perm_middle.symm
  refine ⟨list', init, idx, rest, rfl, hval, hlru, by rw [hlru, hmove], ⟨h.hash, hlayout, ?_, ?_, ?_⟩,
    hvalues⟩
  · exact hsz.trans h.size
  · intro i hi
    rw [show (({ cache with list := list' } : Icache V).list.values) = list'.values from rfl, hvalues]
    exact h.stored i (hperm.mem_iff.mp hi)
  · intro k hk
    rw [show (({ cache with list := list' } : Icache V).list.values) = list'.values from rfl, hvalues]
    exact (hperm.map _).mem_iff.mpr (h.covered k hk)

/-- Without room for an absent key there is something to evict: its bucket is occupied. -/
theorem Inv.exists_lru (h : cache.Inv m l fl) (hroom : ¬ m.Room key) :
    ∃ init last, l = init ++ [last] := by
  rcases List.eq_nil_or_concat l with rfl | ⟨init, last, hsplit⟩
  · exfalso
    refine hroom (Or.inl (List.eq_nil_iff_forall_not_mem.mpr fun p hp => ?_))
    have hwf := h.hash.wf
    have hlookup := BucketMap.lookup_of_mem hwf (hwf.index_lt key) hp
    have hmem := h.covered p.1 (by rw [hlookup]; simp)
    simp at hmem
  · exact ⟨init, last, by simpa using hsplit⟩

/-- Eviction: the key at the back of the list leaves the list and the table. -/
theorem Inv.evict {init : List Nat} {last : Nat} (h : cache.Inv m (init ++ [last]) fl) :
    ∃ list' hash', cache.list.popBack = .ok (list', cache.list.values last)
      ∧ cache.list.values last ≠ ihashUndef
      ∧ (∃ e, cache.hash.getFn (cache.list.values last) = .ok (some e))
      ∧ cache.hash.eraseFn (cache.list.values last) = .ok (hash', true)
      ∧ Ihash.SameShape hash' cache.hash
      ∧ Inv ⟨hash', list'⟩ (m.erase (cache.list.values last)) init (last :: fl)
      ∧ list'.values = cache.list.values := by
  obtain ⟨e, hget, -⟩ := h.getFn_of_mem (i := last) (by simp)
  obtain ⟨-, -, hundef, hlookup⟩ := h.hash.of_getFn hget
  obtain ⟨list', hpop, hlayout, hvalues, hsz⟩ := h.list.popBack
  obtain ⟨hash', herase, hshape, hrefines⟩ :=
    h.hash.eraseFn_of_present hundef (by rw [hlookup]; simp)
  have hother : ∀ i ∈ init, cache.list.values i ≠ cache.list.values last := by
    intro i hi heq
    have hsame := h.values_inj (by simp [hi]) (by simp) heq
    exact (List.nodup_append.mp h.nodup_list).2.2 i hi last (by simp) hsame
  refine ⟨list', hash', hpop, hundef, ⟨e, hget⟩, herase, hshape, ⟨hrefines, hlayout, ?_, ?_, ?_⟩, hvalues⟩
  · change list'.listsz = hash'.bucketsz + hash'.chainsz
    rw [hsz, h.size, hshape.bucketsz, hshape.chainsz]
  · intro i hi
    change ∃ v, (m.erase _).lookup (list'.values i) = _
    rw [hvalues, BucketMap.lookup_erase_of_ne (hother i hi)]
    exact h.stored i (by simp [hi])
  · intro k hk
    change k ∈ init.map list'.values
    rw [hvalues]
    have hne : k ≠ cache.list.values last := by
      rintro rfl
      exact hk BucketMap.lookup_erase_self
    rw [BucketMap.lookup_erase_of_ne hne] at hk
    have hmem := h.covered k hk
    rw [List.map_append, List.map_singleton, List.mem_append, List.mem_singleton] at hmem
    exact hmem.resolve_right hne

/-- A key that entered the table is put in front of the list, and its entry points at the node. -/
theorem Inv.putMru {new : Nat} (h : cache.Inv m l (new :: fl)) (build : Build)
    {hash' : Ihash (Entry V)} {m' : BucketMap Int64 (Entry V)} {e : Slot}
    (hshape : Ihash.SameShape hash' cache.hash) (hrefines : hash'.Refines m')
    (hget : hash'.getFn key = .ok (some e)) (hnew : m.lookup key = none)
    (hother : ∀ k ≠ key, m'.lookup k = m.lookup k) :
    ∃ cache', putMru build hash' cache.list e key = .ok cache'
      ∧ cache'.Inv (m'.set key ⟨(hash'.node e).data.value, some new⟩) (new :: l) fl
      ∧ cache'.list.values = Function.update cache.list.values new key
      ∧ Ihash.SameShape cache'.hash cache.hash
      ∧ cache'.hash.getFn key = .ok (some e)
      ∧ (cache'.hash.node e).data = ⟨(hash'.node e).data.value, some new⟩ := by
  obtain ⟨hbounds, -, -, hlookup⟩ := hrefines.of_getFn hget
  obtain ⟨list', hput, hlayout, hvalues, hsz⟩ := h.list.putFront key
  obtain ⟨hrefines', hget'⟩ := hrefines.setData hget ⟨(hash'.node e).data.value, some new⟩
  have hold : m'.lookup key ≠ none := by
    rw [hlookup]
    simp
  have hshape' : Ihash.SameShape
      (hash'.setData e ⟨(hash'.node e).data.value, some new⟩) cache.hash :=
    (Ihash.sameShape_modify _ _ _).trans hshape
  have hnotin : ∀ i ∈ l, i ≠ new ∧ cache.list.values i ≠ key := by
    intro i hi
    refine ⟨?_, ?_⟩
    · rintro rfl
      exact h.list.not_mem_free hi (by simp)
    · intro heq
      exact h.mem_order.mp (List.mem_map.mpr ⟨i, hi, heq⟩) hnew
  refine ⟨{ hash := hash'.setData e ⟨(hash'.node e).data.value, some new⟩, list := list' }, ?_,
    ⟨hrefines', hlayout, ?_, ?_, ?_⟩, hvalues, hshape', hget', ?_⟩
  · simp only [Icache.putMru, hput, Ihash.load_eq hbounds, bind, Except.bind]
    rw [Build.assert_of _ (by simp)]
    rfl
  · change list'.listsz = _
    rw [hsz, h.size, ← hshape'.bucketsz, ← hshape'.chainsz]
  · intro i hi
    change ∃ v, (m'.set _ _).lookup (list'.values i) = _
    rw [hvalues]
    rcases List.mem_cons.mp hi with rfl | hi
    · rw [Function.update_self]
      exact ⟨_, BucketMap.lookup_set_self hold⟩
    · obtain ⟨hne, hkey⟩ := hnotin i hi
      rw [Function.update_of_ne hne, BucketMap.lookup_set_of_ne hkey, hother _ hkey]
      exact h.stored i hi
  · intro k hk
    change k ∈ (new :: l).map list'.values
    rw [hvalues, List.map_cons, Function.update_self, List.mem_cons]
    by_cases hkey : k = key
    · exact Or.inl hkey
    · right
      rw [BucketMap.lookup_set_of_ne hkey, hother k hkey] at hk
      obtain ⟨i, hi, rfl⟩ := List.mem_map.mp (h.covered k hk)
      exact List.mem_map.mpr ⟨i, hi, Function.update_of_ne (hnotin i hi).1 _ _⟩
  · have hdata := (hrefines'.of_getFn hget').2.2.2
    rw [BucketMap.lookup_set_self hold] at hdata
    exact (Option.some.inj hdata).symm

theorem Inv.map_values_update (h : cache.Inv m l (new :: fl)) (key : Int64) :
    (new :: l).map (Function.update cache.list.values new key)
      = key :: l.map cache.list.values := by
  rw [List.map_cons, Function.update_self]
  congr 1
  refine List.map_congr_left fun i hi => Function.update_of_ne ?_ _ _
  rintro rfl
  exact h.list.not_mem_free hi (by simp)

end Moves

end Scroller.Icache
