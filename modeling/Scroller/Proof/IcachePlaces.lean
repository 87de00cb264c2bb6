import Scroller.Proof.IcacheTouch

/-!
# Places for keys in the LRU cache

A key has a place when it is cached, when its bucket has room, or when the eviction of the least recently
used key frees a slot it can use. All of it can be read off the state before a touch, and also off the
keys alone in the order the list has them, which is how a second touch right after a first one is judged.
-/

namespace Scroller

namespace Icache

variable {V : Type}

/-- The entry of a key and its data. -/
def value (cache : Icache V) (key : Int64) : Option V := (cache.hash.value key).map Entry.value

def Cached (cache : Icache V) (key : Int64) : Prop := ∃ e, cache.hash.getFn key = .ok (some e)

/-- The cache holds one key for every slot it has. -/
def Full (cache : Icache V) : Prop :=
  ∃ keys : List Int64, keys.Nodup ∧ (∀ key ∈ keys, cache.Cached key)
    ∧ keys.length = cache.hash.bucketsz + cache.hash.chainsz

/-- The key at the back of the list. -/
def lru (cache : Icache V) : Option Int64 := cache.list.backIdx.map cache.list.values

/-- Evicting `old` frees a slot that `key` can use: they share a bucket, or another entry stays behind
in the bucket of `old`, so that a chain node becomes free. -/
def FreesSlotFor (cache : Icache V) (old key : Int64) : Prop :=
  cache.hash.idx old = cache.hash.idx key
    ∨ (cache.hash.node (.bucket (cache.hash.idx old))).next ≠ none

/-- The key has a place: it is cached, there is room, or the eviction makes room. -/
def Admits (cache : Icache V) (key : Int64) : Prop :=
  cache.Cached key ∨ ¬ cache.hash.Exhausted key ∨ ∃ old, cache.lru = some old ∧ cache.FreesSlotFor old key

/-- The key has a place, and the cache evicts only when it is full. -/
def KeepsPromise (cache : Icache V) (key : Int64) : Prop :=
  cache.Admits key ∧ (cache.Cached key ∨ ¬ cache.hash.Exhausted key ∨ cache.Full)

/-- Every other key keeps its data, except that a full cache removes the least recently used key for an
absent one. -/
def OthersUndisturbed (cache cache' : Icache V) (key : Int64) : Prop :=
  (∀ k ≠ key, ¬ (cache.Full ∧ ¬ cache.Cached key ∧ cache.lru = some k) →
      cache'.value k = cache.value k)
    ∧ ∀ k, cache.Full ∧ ¬ cache.Cached key ∧ cache.lru = some k → cache'.value k = none

section Bridge

variable {cache : Icache V} {m : BucketMap Int64 (Entry V)} {l fl : List Nat} {key : Int64}

theorem Inv.value_eq (h : cache.Inv m l fl) (key : Int64) :
    cache.value key = (m.lookup key).map Entry.value := by
  rw [value, h.hash.value_eq]

theorem Inv.cached_iff (h : cache.Inv m l fl) : cache.Cached key ↔ m.lookup key ≠ none := by
  constructor
  · rintro ⟨e, hget⟩
    rw [(h.hash.of_getFn hget).2.2.2]
    simp
  · intro hpresent
    obtain ⟨v, hv⟩ := Option.ne_none_iff_exists'.mp hpresent
    obtain ⟨e, hget, -⟩ := h.hash.getFn_some hv
    exact ⟨e, hget⟩

theorem Inv.full_iff_length (h : cache.Inv m l fl) :
    cache.Full ↔ l.length = cache.hash.bucketsz + cache.hash.chainsz := by
  constructor
  · rintro ⟨keys, hnodup, hcached, hlen⟩
    have hsub : keys ⊆ l.map cache.list.values :=
      fun k hk => h.mem_order.mpr (h.cached_iff.mp (hcached k hk))
    have hle := (hnodup.subperm hsub).length_le
    rw [List.length_map, hlen] at hle
    have hsum := h.list.length_add
    rw [h.size] at hsum
    omega
  · intro hlen
    exact ⟨l.map cache.list.values, h.nodup_order, fun k hk => h.cached_iff.mpr (h.mem_order.mp hk),
      by rw [List.length_map, hlen]⟩

theorem Inv.not_room_of_full (h : cache.Inv m l fl) (hfull : cache.Full) : ¬ m.Room key := by
  intro hroom
  have hlt := BucketMap.length_keys_lt h.hash.wf hroom
  rw [← h.length_list, h.hash.size_eq] at hlt
  have hlen := h.full_iff_length.mp hfull
  omega

theorem Inv.lru_eq (h : cache.Inv m l fl) {init : List Int64} {old : Int64}
    (horder : l.map cache.list.values = init ++ [old]) : cache.lru = some old := by
  rcases List.eq_nil_or_concat l with rfl | ⟨front, last, rfl⟩
  · simp at horder
  · rw [List.concat_eq_append, List.map_append, List.map_singleton] at horder
    have hlast := (List.append_inj' horder rfl).2
    have hbwd := h.list.bwd
    rw [List.concat_eq_append, List.reverse_append, List.reverse_singleton,
      List.singleton_append] at hbwd
    rw [lru, hbwd.1, Option.map_some, List.singleton_inj.mp hlast]

theorem Inv.exists_order (h : cache.Inv m l fl) (hroom : ¬ m.Room key) :
    ∃ init old, l.map cache.list.values = init ++ [old] := by
  obtain ⟨init, last, rfl⟩ := h.exists_lru hroom
  exact ⟨init.map cache.list.values, cache.list.values last, by simp⟩

theorem Inv.room_iff_freesSlotFor (h : cache.Inv m l fl) {init : List Int64} {old : Int64}
    (horder : l.map cache.list.values = init ++ [old]) (hroom : ¬ m.Room key) :
    (m.erase old).Room key ↔ cache.FreesSlotFor old key := by
  have hold : m.lookup old ≠ none := h.mem_order.mp (by rw [horder]; simp)
  rw [BucketMap.room_erase_iff h.hash.wf hold hroom, h.hash.two_le_length_iff hold, h.hash.index_eq,
    FreesSlotFor]

/-- A key that is absent and without room has a place when the eviction makes one. -/
theorem Inv.admits_iff (h : cache.Inv m l fl) {init : List Int64} {old : Int64}
    (hlookup : m.lookup key = none) (hroom : ¬ m.Room key)
    (horder : l.map cache.list.values = init ++ [old]) :
    cache.Admits key ↔ (m.erase old).Room key := by
  have habsent : ¬ cache.Cached key := by
    rw [h.cached_iff, hlookup]
    simp
  have hexhausted := h.hash.not_room_iff.mp hroom
  rw [h.room_iff_freesSlotFor horder hroom, Admits, h.lru_eq horder]
  constructor
  · rintro (hcached | hnot | ⟨k, hk, hfrees⟩)
    · exact absurd hcached habsent
    · exact absurd hexhausted hnot
    · cases hk
      exact hfrees
  · intro hfrees
    exact Or.inr (Or.inr ⟨old, rfl, hfrees⟩)

theorem Inv.admits_of_room (h : cache.Inv m l fl) (hroom : m.Room key) : cache.Admits key := by
  refine Or.inr (Or.inl ?_)
  rw [← h.hash.not_room_iff, not_not]
  exact hroom

variable {cache' : Icache V} {m' : BucketMap Int64 (Entry V)} {l' fl' : List Nat}
  {gone : Option Int64} {present : Bool}

/-- An outcome with an entry leaves the other keys undisturbed when no key went, or when the cache was
full. -/
theorem Outcome.othersUndisturbed_iff (h : cache.Inv m l fl) (h' : cache'.Inv m' l' fl')
    {order' : List Int64} (hout : Outcome m (l.map cache.list.values) key order' true gone)
    (hothers : OthersKept m m' key gone) :
    OthersUndisturbed cache cache' key
      ↔ (cache.Cached key ∨ ¬ cache.hash.Exhausted key ∨ cache.Full) := by
  have hkept : gone = none → ∀ k ≠ key, cache'.value k = cache.value k := by
    rintro rfl k hk
    rw [h.value_eq, h'.value_eq, hothers k hk, if_neg (by simp)]
  cases hout with
  | hit hpresent =>
      have hcached := h.cached_iff.mpr hpresent
      refine iff_of_true ⟨fun k hk _ => hkept rfl k hk, ?_⟩ (Or.inl hcached)
      rintro k ⟨-, hnot, -⟩
      exact absurd hcached hnot
  | fill hnone hroom =>
      have hnot : ¬ cache.hash.Exhausted key := by
        rw [← h.hash.not_room_iff, not_not]
        exact hroom
      refine iff_of_true ⟨fun k hk _ => hkept rfl k hk, ?_⟩ (Or.inr (Or.inl hnot))
      rintro k ⟨hfull, -, -⟩
      exact absurd hroom (h.not_room_of_full hfull)
  | @evict init lru hnone hroom horder hroom₁ =>
      have hlru := h.lru_eq horder
      have habsent : ¬ cache.Cached key := by
        rw [h.cached_iff, hnone]
        simp
      have hmem : m.lookup lru ≠ none := h.mem_order.mp (by rw [horder]; simp)
      have hne : lru ≠ key := by
        rintro rfl
        exact hmem hnone
      have hgone : cache'.value lru = none := by
        rw [h'.value_eq, hothers lru hne, if_pos rfl, Option.map_none]
      have hwas : cache.value lru ≠ none := by
        rw [h.value_eq, Ne, Option.map_eq_none_iff]
        exact hmem
      constructor
      · rintro ⟨hsame, -⟩
        by_contra hnot
        push Not at hnot
        refine hwas ((hsame lru hne ?_).symm.trans hgone)
        rintro ⟨hfull, -⟩
        exact hnot.2.2 hfull
      · rintro (hcached | hnot | hfull)
        · exact absurd hcached habsent
        · exact absurd (h.hash.not_room_iff.mp hroom) hnot
        · refine ⟨fun k hk hspared => ?_, ?_⟩
          · have hkne : lru ≠ k := by
              rintro rfl
              exact hspared ⟨hfull, habsent, hlru⟩
            rw [h.value_eq, h'.value_eq, hothers k hk, if_neg]
            exact fun heq => hkne (Option.some.inj heq)
          · rintro k ⟨-, -, hk⟩
            rw [hlru] at hk
            rw [← Option.some.inj hk]
            exact hgone

theorem Outcome.present_iff (h : cache.Inv m l fl) {order' : List Int64}
    (hout : Outcome m (l.map cache.list.values) key order' present gone) :
    present = true ↔ cache.Admits key := by
  cases hout with
  | hit hpresent => exact iff_of_true rfl (Or.inl (h.cached_iff.mpr hpresent))
  | fill hnone hroom => exact iff_of_true rfl (h.admits_of_room hroom)
  | evict hnone hroom horder hroom₁ =>
      exact iff_of_true rfl ((h.admits_iff hnone hroom horder).mpr hroom₁)
  | fail hnone hroom horder hroom₁ =>
      exact iff_of_false (by simp) (fun hadmits => hroom₁ ((h.admits_iff hnone hroom horder).mp hadmits))

/-! ### Places by the order of the keys -/

/-- The keys in the list from front to back. -/
def Order (cache : Icache V) (order : List Int64) : Prop :=
  ∃ l, IndexChain.IsChain cache.list.nexts cache.list.frontIdx l ∧ order = l.map cache.list.values

/-- Beside the keys `order` there is room for `key`: none of them has its bucket, or they leave a chain
node, each occupied bucket holding one of them itself. -/
def RoomBeside (cache : Icache V) (order : List Int64) (key : Int64) : Prop :=
  (∀ k ∈ order, cache.hash.idx k ≠ cache.hash.idx key)
    ∨ order.length < cache.hash.chainsz + (order.map cache.hash.idx).dedup.length

instance (cache : Icache V) (order : List Int64) (key : Int64) :
    Decidable (cache.RoomBeside order key) :=
  inferInstanceAs (Decidable (_ ∨ _))

/-- The key has a place when the keys are `order`. -/
def AdmitsBeside (cache : Icache V) (order : List Int64) (key : Int64) : Prop :=
  key ∈ order ∨ cache.RoomBeside order key ∨ order ≠ [] ∧ cache.RoomBeside order.dropLast key

/-- The order after a touch of a key that has a place. -/
def touchedOrder (cache : Icache V) (order : List Int64) (key : Int64) : List Int64 :=
  if key ∈ order then key :: order.erase key
  else if cache.RoomBeside order key then key :: order
  else key :: order.dropLast

theorem Inv.order_iff (h : cache.Inv m l fl) {order : List Int64} :
    cache.Order order ↔ order = l.map cache.list.values := by
  constructor
  · rintro ⟨l', hchain, rfl⟩
    rw [hchain.unique h.list.fwd]
  · rintro rfl
    exact ⟨l, h.list.fwd, rfl⟩

theorem Inv.room_iff_roomBeside (h : cache.Inv m l fl) :
    m.Room key ↔ cache.RoomBeside (l.map cache.list.values) key := by
  rw [BucketMap.room_iff_of_mem_iff h.hash.wf h.nodup_order (fun k => h.mem_order), h.hash.index_eq]
  rfl

theorem Inv.room_erase_iff_roomBeside (h : cache.Inv m l fl) {init : List Int64} {old : Int64}
    (horder : l.map cache.list.values = init ++ [old]) :
    (m.erase old).Room key ↔ cache.RoomBeside init key := by
  have hnodup := h.nodup_order
  have hmem : ∀ k, k ∈ init ++ [old] ↔ m.lookup k ≠ none := by
    intro k
    rw [← horder]
    exact h.mem_order
  rw [horder, List.nodup_append] at hnodup
  have hold : m.lookup old ≠ none := (hmem old).mp (by simp)
  have hinit : ∀ k, k ∈ init ↔ (m.erase old).lookup k ≠ none := by
    intro k
    by_cases hk : k = old
    · rw [hk, BucketMap.lookup_erase_self]
      exact iff_of_false (fun hin => hnodup.2.2 old hin old (by simp) rfl) (by simp)
    · rw [BucketMap.lookup_erase_of_ne hk, ← hmem]
      simp [hk]
  rw [BucketMap.room_iff_of_mem_iff (BucketMap.wf_erase h.hash.wf hold) hnodup.1 hinit,
    BucketMap.erase_index, h.hash.index_eq]
  rfl

theorem Inv.admits_iff_admitsBeside (h : cache.Inv m l fl) :
    cache.Admits key ↔ cache.AdmitsBeside (l.map cache.list.values) key := by
  unfold AdmitsBeside
  by_cases hcached : cache.Cached key
  · exact iff_of_true (Or.inl hcached) (Or.inl (h.mem_order.mpr (h.cached_iff.mp hcached)))
  have hnotin : key ∉ l.map cache.list.values :=
    fun hin => hcached (h.cached_iff.mpr (h.mem_order.mp hin))
  by_cases hroom : m.Room key
  · exact iff_of_true (h.admits_of_room hroom) (Or.inr (Or.inl (h.room_iff_roomBeside.mp hroom)))
  have hlookup : m.lookup key = none := by
    by_contra hpresent
    exact hcached (h.cached_iff.mpr hpresent)
  obtain ⟨init, old, horder⟩ := h.exists_order hroom
  rw [h.admits_iff hlookup hroom horder, h.room_erase_iff_roomBeside horder,
    ← h.room_iff_roomBeside, horder, List.dropLast_concat]
  rw [horder] at hnotin
  simp [hnotin, hroom]

/-- An outcome with an entry orders the keys as `touchedOrder` says. -/
theorem Outcome.order_eq (h : cache.Inv m l fl) {order' : List Int64}
    (hout : Outcome m (l.map cache.list.values) key order' true gone) :
    order' = cache.touchedOrder (l.map cache.list.values) key := by
  have habsent : m.lookup key = none → key ∉ l.map cache.list.values := by
    intro hnone hin
    exact h.mem_order.mp hin hnone
  unfold touchedOrder
  cases hout with
  | hit hpresent => rw [if_pos (h.mem_order.mpr hpresent)]
  | fill hnone hroom => rw [if_neg (habsent hnone), if_pos (h.room_iff_roomBeside.mp hroom)]
  | evict hnone hroom horder _ =>
      rw [if_neg (habsent hnone), if_neg (fun hbeside => hroom (h.room_iff_roomBeside.mpr hbeside)),
        horder, List.dropLast_concat]

/-- Whether a key has a place beside other keys depends on the sizes and the hash function only. -/
theorem admitsBeside_congr (hshape : Ihash.SameShape cache'.hash cache.hash) (order : List Int64) :
    cache'.AdmitsBeside order key ↔ cache.AdmitsBeside order key := by
  simp only [AdmitsBeside, RoomBeside, hshape.idx, hshape.chainsz]

end Bridge

end Icache

end Scroller
