import Scroller.Lib.Machine
import Scroller.Proof.IcacheInvariant

/-!
# Touching the LRU cache

A touch has four outcomes, and which one it takes is decided by the bounded map the table refines and
by the list. The outcome says what becomes of the order of the keys and which key left the cache. It is
stated without the cache, because the caches for files and pages have the same four.
-/

namespace Scroller.Icache

variable {V : Type}

/-- What touching `key` does to the keys `order`, most recently used first: the order afterwards,
whether the key is cached then, and the key that was evicted. -/
inductive Outcome (m : BucketMap Int64 (Entry V)) (order : List Int64) (key : Int64) :
    List Int64 → Bool → Option Int64 → Prop where
  | hit : m.lookup key ≠ none → Outcome m order key (key :: order.erase key) true none
  | fill : m.lookup key = none → m.Room key → Outcome m order key (key :: order) true none
  | evict {init : List Int64} {lru : Int64} : m.lookup key = none → ¬ m.Room key →
      order = init ++ [lru] → (m.erase lru).Room key →
      Outcome m order key (key :: init) true (some lru)
  | fail {init : List Int64} {lru : Int64} : m.lookup key = none → ¬ m.Room key →
      order = init ++ [lru] → ¬ (m.erase lru).Room key →
      Outcome m order key init false (some lru)

/-- The entries besides the touched one: the evicted one is gone, the others are as they were. -/
def OthersKept (m m' : BucketMap Int64 (Entry V)) (key : Int64) (gone : Option Int64) : Prop :=
  ∀ k ≠ key, m'.lookup k = if gone = some k then none else m.lookup k

variable {cache : Icache V} {m : BucketMap Int64 (Entry V)} {l fl : List Nat} {key : Int64}

/-- A front move of the node of `key` is a front move of the key. -/
theorem Inv.order_moveFront {init rest : List Nat} {idx : Nat}
    (h : cache.Inv m (init ++ idx :: rest) fl) (hval : cache.list.values idx = key) :
    (idx :: (init ++ rest)).map cache.list.values
      = key :: ((init ++ idx :: rest).map cache.list.values).erase key := by
  have hnodup := h.nodup_order
  rw [List.map_append, List.map_cons, hval] at hnodup
  have hnotin : key ∉ init.map cache.list.values := by
    intro hmem
    exact (List.nodup_append.mp hnodup).2.2 key hmem key (by simp) rfl
  rw [List.map_cons, hval, List.map_append, List.map_append, List.map_cons, hval,
    List.erase_append_right _ hnotin, List.erase_cons_head]

/-- The two moves that bring a new key in: it is stored in the table, then put in front. The caller may
write the new entry's data in between. -/
theorem Inv.enter (h : cache.Inv m l fl) (build : Build) (hkey : key ≠ ihashUndef)
    (hlookup : m.lookup key = none) (hroom : m.Room key) :
    ∃ hash' e, cache.hash.touchFn key = .ok (hash', some e) ∧ hash'.InBounds e
      ∧ ∀ hash'', hash'' = hash' ∨ (∃ v, hash'' = hash'.setData e v) →
        ∃ cache' m' l' fl', Icache.putMru build hash'' cache.list e key = .ok cache'
          ∧ cache'.Inv m' l' fl' ∧ Ihash.SameShape cache'.hash cache.hash
          ∧ cache'.hash.getFn key = .ok (some e)
          ∧ l'.map cache'.list.values = key :: l.map cache.list.values
          ∧ OthersKept m m' key none
          ∧ (cache'.hash.node e).data.value = (hash''.node e).data.value := by
  obtain ⟨new, fl', rfl⟩ := h.exists_free hroom
  obtain ⟨hash', e, htouch, hshape, hget, hrefines⟩ := h.hash.touchFn_insert hkey hlookup hroom
  have hput : ∀ (hash'' : Ihash (Entry V)) m'', hash''.Refines m'' →
      hash''.getFn key = .ok (some e) → Ihash.SameShape hash'' cache.hash →
      (∀ k ≠ key, m''.lookup k = m.lookup k) →
      ∃ cache' m' l' fl', Icache.putMru build hash'' cache.list e key = .ok cache'
        ∧ cache'.Inv m' l' fl' ∧ Ihash.SameShape cache'.hash cache.hash
        ∧ cache'.hash.getFn key = .ok (some e)
        ∧ l'.map cache'.list.values = key :: l.map cache.list.values
        ∧ OthersKept m m' key none
        ∧ (cache'.hash.node e).data.value = (hash''.node e).data.value := by
    intro hash'' m'' hrefines'' hget'' hshape'' hother
    obtain ⟨cache', hok, hinv, hvalues, hshape', hget', hdata⟩ :=
      h.putMru build hshape'' hrefines'' hget'' hlookup hother
    refine ⟨cache', _, _, fl', hok, hinv, hshape', hget', ?_, fun k hk => ?_, ?_⟩
    · rw [hvalues, h.map_values_update]
    · rw [BucketMap.lookup_set_of_ne hk, hother k hk]
      rfl
    · rw [hdata]
  have hother : ∀ k ≠ key, (m.insert key (hash'.node e).data).lookup k = m.lookup k :=
    fun k hk => BucketMap.lookup_insert_of_ne hk
  refine ⟨hash', e, htouch, (hrefines.of_getFn hget).1, ?_⟩
  rintro hash'' (rfl | ⟨v, rfl⟩)
  · exact hput hash'' _ hrefines hget hshape hother
  · obtain ⟨hrefines'', hget''⟩ := hrefines.setData hget v
    exact hput _ _ hrefines'' hget'' ((Ihash.sameShape_modify _ _ _).trans hshape)
      fun k hk => (BucketMap.lookup_set_of_ne hk).trans (hother k hk)

/-- The move that makes room for an absent key: the key at the back of the list is evicted, and every
check on the way holds. -/
theorem Inv.makeRoom (h : cache.Inv m l fl) (build : Build) (hlookup : m.lookup key = none)
    (hroom : ¬ m.Room key) :
    ∃ list' hash' lru l' fl', cache.hash.touchFn key = .ok (cache.hash, none)
      ∧ cache.list.popBack = .ok (list', lru) ∧ build.assert (lru ≠ ilist2Undef) = .ok ()
      ∧ build.assertCall (cache.hash.getFn lru >>= fun e => pure e.isSome) = .ok ()
      ∧ (∃ e, cache.hash.getFn lru = .ok (some e))
      ∧ cache.hash.eraseFn lru = .ok (hash', true)
      ∧ Inv ⟨hash', list'⟩ (m.erase lru) l' fl' ∧ Ihash.SameShape hash' cache.hash
      ∧ l.map cache.list.values = l'.map list'.values ++ [lru]
      ∧ (m.erase lru).lookup key = none ∧ OthersKept m (m.erase lru) key (some lru) := by
  obtain ⟨init, last, rfl⟩ := h.exists_lru hroom
  obtain ⟨list', hash', hpop, hundef, ⟨s, hlru⟩, herase, hshape, hinv, hvalues⟩ := h.evict
  refine ⟨list', hash', _, init, _, h.hash.touchFn_of_not_room hlookup hroom, hpop,
    Build.assert_of _ hundef, ?_, ⟨s, hlru⟩, herase, hinv, hshape, ?_, ?_, ?_⟩
  · rw [hlru]
    exact Build.assertCall_of build
  · rw [hvalues, List.map_append, List.map_singleton]
  · have hne : key ≠ cache.list.values last := by
      intro heq
      rw [heq, (h.hash.of_getFn hlru).2.2.2] at hlookup
      cases hlookup
    rw [BucketMap.lookup_erase_of_ne hne, hlookup]
  · intro k _
    by_cases hk : k = cache.list.values last
    · rw [hk, BucketMap.lookup_erase_self, if_pos rfl]
    · rw [BucketMap.lookup_erase_of_ne hk, if_neg]
      exact fun heq => hk (Option.some.inj heq).symm

theorem ne_lru_of_nodup {init : List Int64} {lru : Int64} (h : (init ++ [lru]).Nodup) :
    ∀ k ∈ init, some lru ≠ some k := by
  intro k hk heq
  cases heq
  exact (List.nodup_append.mp h).2.2 _ hk _ (by simp) rfl

/-- Bringing a key in after an eviction leaves the other keys as the eviction left them. -/
theorem OthersKept.trans_none {m₁ m₂ : BucketMap Int64 (Entry V)} {gone : Option Int64}
    (h : OthersKept m m₁ key gone) (h' : OthersKept m₁ m₂ key none) : OthersKept m m₂ key gone := by
  intro k hk
  rw [h' k hk, if_neg (by simp), h k hk]

/-- **Touch.** From the invariant a touch always returns, keeps the invariant, and has one of the four
outcomes. -/
theorem Inv.touchFn (h : cache.Inv m l fl) (build : Build) (hkey : key ≠ ihashUndef) :
    ∃ cache' e m' l' fl' gone, Icache.touchFn build cache key = .ok (cache', e)
      ∧ cache'.Inv m' l' fl' ∧ Ihash.SameShape cache'.hash cache.hash
      ∧ Outcome m (l.map cache.list.values) key (l'.map cache'.list.values) e.isSome gone
      ∧ OthersKept m m' key gone
      ∧ ∀ s, e = some s → cache'.hash.getFn key = .ok (some s) := by
  cases hlookup : m.lookup key with
  | some entry =>
      obtain ⟨e, hget, -⟩ := h.hash.getFn_some hlookup
      obtain ⟨list', init, idx, rest, rfl, hval, -, hmove, hinv, hvalues⟩ := h.moveFront build hget
      refine ⟨{ cache with list := list' }, some e, m, _, fl, none, ?_, hinv, ⟨rfl, rfl, rfl⟩, ?_,
        fun _ _ => rfl, ?_⟩
      · rw [Icache.touchFn, hget]
        simp only [bind, Except.bind, Ihash.load_eq (h.hash.of_getFn hget).1, hmove]
        rfl
      · change Outcome m _ key ((idx :: (init ++ rest)).map list'.values) true none
        rw [hvalues, h.order_moveFront hval]
        exact .hit (by rw [hlookup]; simp)
      · rintro s hs
        rw [← Option.some.inj hs]
        exact hget
  | none =>
      have habsent := h.hash.getFn_none hlookup
      by_cases hroom : m.Room key
      · obtain ⟨hash', e, htouch, -, henter⟩ := h.enter build hkey hlookup hroom
        obtain ⟨cache', m', l', fl', hput, hinv, hshape, hget, horder, hothers, -⟩ :=
          henter hash' (Or.inl rfl)
        refine ⟨cache', some e, m', l', fl', none, ?_, hinv, hshape, ?_, hothers, ?_⟩
        · rw [Icache.touchFn, habsent]
          simp only [bind, Except.bind, htouch, hput]
          rfl
        · rw [horder]
          exact .fill hlookup hroom
        · rintro s hs
          rw [← Option.some.inj hs]
          exact hget
      · obtain ⟨list₁, hash₁, lru, l₁, fl₁, hnotouch, hpop, hassert, hassertCall, -, herase, hinv₁,
          hshape₁, horder₁, hlookup₁, hothers₁⟩ := h.makeRoom build hlookup hroom
        by_cases hroom₁ : (m.erase lru).Room key
        · obtain ⟨hash', e, htouch, -, henter⟩ := hinv₁.enter build hkey hlookup₁ hroom₁
          obtain ⟨cache', m', l', fl', hput, hinv, hshape, hget, horder, hothers, -⟩ :=
            henter hash' (Or.inl rfl)
          refine ⟨cache', some e, m', l', fl', some lru, ?_, hinv, hshape.trans hshape₁, ?_,
            hothers₁.trans_none hothers, ?_⟩
          · rw [Icache.touchFn, habsent]
            simp only [bind, Except.bind] at hassertCall ⊢
            simp only [hnotouch, hpop, hassert, hassertCall, herase, htouch, hput]
            rfl
          · rw [horder]
            exact .evict hlookup hroom horder₁ hroom₁
          · rintro s hs
            rw [← Option.some.inj hs]
            exact hget
        · refine ⟨⟨hash₁, list₁⟩, none, _, l₁, fl₁, some lru, ?_, hinv₁, hshape₁,
            .fail hlookup hroom horder₁ hroom₁, hothers₁, ?_⟩
          · have hnotouch₁ := hinv₁.hash.touchFn_of_not_room hlookup₁ hroom₁
            rw [Icache.touchFn, habsent]
            simp only [bind, Except.bind] at hassertCall ⊢
            simp only [hnotouch, hpop, hassert, hassertCall, herase, hnotouch₁]
            rfl
          · intro s hs
            cases hs

end Scroller.Icache
