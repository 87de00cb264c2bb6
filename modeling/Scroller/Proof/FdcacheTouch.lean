import Scroller.Fdcache
import Scroller.Proof.IcacheTouch

/-!
# Touching the file descriptor cache

The copy of the touch in `fdcache.c` opens the file before it looks for a place and closes the evicted
descriptor. Its moves are those of the LRU cache, so it has the same outcomes, and one more: a file that
cannot be opened leaves the cache as it was.
-/

namespace Scroller.Fdcache

open Icache (Inv Outcome OthersKept Entry)

variable {W P : Type} {s : Fdcache W} {m : BucketMap Int64 (Entry Int)} {l fl : List Nat}
  {key : Int64}

/-- The descriptor of a key, as the map has it. -/
def fdAt (m : BucketMap Int64 (Entry Int)) (key : Int64) : Option Int :=
  (m.lookup key).map Entry.value

/-- What a touch that got over opening the file does with descriptors: the opened one is in the touched
entry or closed, and the one of the evicted key is closed. -/
inductive Descriptors (os : Os W P) (world : W) (m m' : BucketMap Int64 (Entry Int)) (key : Int64) :
    W → Bool → Option Int64 → Prop where
  | hit : m.lookup key ≠ none → m' = m → Descriptors os world m m' key world true none
  | fill {world' : W} {fd : Int} : m.lookup key = none → openFd os world key = (world', some fd) →
      fdAt m' key = some fd → Descriptors os world m m' key world' true none
  | evict {world' : W} {fd old : Int} {lru : Int64} : m.lookup key = none →
      openFd os world key = (world', some fd) → fdAt m lru = some old → fdAt m' key = some fd →
      Descriptors os world m m' key (os.close world' old) true (some lru)
  | fail {world' : W} {fd old : Int} {lru : Int64} : m.lookup key = none →
      openFd os world key = (world', some fd) → fdAt m lru = some old →
      Descriptors os world m m' key (os.close (os.close world' old) fd) false (some lru)

theorem setFd_eq {hash : Ihash (Entry Int)} {e : Slot} (h : hash.InBounds e) (fd : Int) :
    setFd hash e fd = .ok (hash.setData e { (hash.node e).data with value := fd }) := by
  rw [setFd, Ihash.load_eq h]
  rfl

theorem getFd_eq {hash : Ihash (Entry Int)} {e : Slot} (h : hash.Refines m)
    (hget : hash.getFn key = .ok (some e)) : getFd hash key = .ok (hash.node e).data.value := by
  rw [getFd, hget]
  simp only [bind, Except.bind, Ihash.load_eq (h.of_getFn hget).1]
  rfl

/-- Entering a descriptor: the moves of the LRU cache with the descriptor written in between. -/
theorem enter_eq (h : s.cache.Inv m l fl) (build : Build) (world : W) (hkey : key ≠ ihashUndef)
    (hlookup : m.lookup key = none) (hroom : m.Room key) (fd : Int) :
    ∃ hash' e s' m' l' fl', s.cache.hash.touchFn key = .ok (hash', some e)
      ∧ enter build world hash' s.cache.list e key fd = .ok (s', some e)
      ∧ s'.cache.Inv m' l' fl' ∧ Ihash.SameShape s'.cache.hash s.cache.hash
      ∧ s'.cache.hash.getFn key = .ok (some e)
      ∧ l'.map s'.cache.list.values = key :: l.map s.cache.list.values
      ∧ OthersKept m m' key none ∧ s'.world = world ∧ fdAt m' key = some fd := by
  obtain ⟨hash', e, htouch, hbounds, henter⟩ := h.enter build hkey hlookup hroom
  obtain ⟨cache', m', l', fl', hput, hinv, hshape, hget, horder, hothers, hdata⟩ :=
    henter _ (Or.inr ⟨{ (hash'.node e).data with value := fd }, rfl⟩)
  refine ⟨hash', e, ⟨world, cache'⟩, m', l', fl', htouch, ?_, hinv, hshape, hget, horder, hothers, rfl,
    ?_⟩
  · rw [enter, setFd_eq hbounds]
    simp only [bind, Except.bind, hput]
    rfl
  · rw [fdAt, (hinv.hash.of_getFn hget).2.2.2, Option.map_some, hdata, Ihash.setData,
      Ihash.node_modify_self]

/-- **Touch.** From the invariant a touch always returns and keeps the invariant. An absent key whose
file cannot be opened leaves the cache alone; otherwise the outcome is one of the LRU cache's. -/
theorem touchFn_eq (h : s.cache.Inv m l fl) (build : Build) (os : Os W P) (hkey : key ≠ ihashUndef) :
    ∃ s' e m' l' fl', touchFn build os s key = .ok (s', e) ∧ s'.cache.Inv m' l' fl'
      ∧ Ihash.SameShape s'.cache.hash s.cache.hash
      ∧ (∀ slot, e = some slot → s'.cache.hash.getFn key = .ok (some slot))
      ∧ ((m.lookup key = none ∧ openFd os s.world key = (s'.world, none) ∧ e = none
            ∧ s'.cache = s.cache)
        ∨ ∃ gone, Outcome m (l.map s.cache.list.values) key (l'.map s'.cache.list.values) e.isSome
              gone
            ∧ OthersKept m m' key gone
            ∧ Descriptors os s.world m m' key s'.world e.isSome gone) := by
  cases hlookup : m.lookup key with
  | some entry =>
      obtain ⟨e, hget, -⟩ := h.hash.getFn_some hlookup
      obtain ⟨list', init, idx, rest, rfl, hval, -, hmove, hinv, hvalues⟩ := h.moveFront build hget
      refine ⟨{ s with cache := { s.cache with list := list' } }, some e, m, _, fl, ?_, hinv,
        ⟨rfl, rfl, rfl⟩, ?_, Or.inr ⟨none, ?_, fun _ _ => rfl, .hit (by simp [hlookup]) rfl⟩⟩
      · rw [touchFn, hget]
        simp only [bind, Except.bind, Ihash.load_eq (h.hash.of_getFn hget).1, hmove]
        rfl
      · rintro slot hslot
        rw [← Option.some.inj hslot]
        exact hget
      · change Outcome m _ key ((idx :: (init ++ rest)).map list'.values) true none
        rw [hvalues, h.order_moveFront hval]
        exact .hit (by rw [hlookup]; simp)
  | none =>
      have habsent := h.hash.getFn_none hlookup
      rcases hopen : openFd os s.world key with ⟨world, _ | fd⟩
      · refine ⟨{ s with world }, none, m, l, fl, ?_, h, ⟨rfl, rfl, rfl⟩, ?_,
          Or.inl ⟨rfl, rfl, rfl, rfl⟩⟩
        · rw [touchFn, habsent]
          simp only [bind, Except.bind, hopen]
          rfl
        · intro slot hslot
          cases hslot
      by_cases hroom : m.Room key
      · obtain ⟨hash', e, s', m', l', fl', htouch, henter, hinv, hshape, hget, horder, hothers, hworld,
          hfd⟩ := enter_eq h build world hkey hlookup hroom fd
        refine ⟨s', some e, m', l', fl', ?_, hinv, hshape, ?_, Or.inr ⟨none, ?_, hothers, ?_⟩⟩
        · rw [touchFn, habsent]
          simp only [bind, Except.bind, hopen, htouch, henter]
        · rintro slot hslot
          rw [← Option.some.inj hslot]
          exact hget
        · rw [horder]
          exact .fill hlookup hroom
        · rw [hworld]
          exact .fill hlookup hopen hfd
      · obtain ⟨list₁, hash₁, lru, l₁, fl₁, hnotouch, hpop, hassert, hassertCall, ⟨slot, hlru⟩, herase,
          hinv₁, hshape₁, horder₁, hlookup₁, hothers₁⟩ := h.makeRoom build hlookup hroom
        have hfd := getFd_eq h.hash hlru
        have hold : fdAt m lru = some (s.cache.hash.node slot).data.value := by
          rw [fdAt, (h.hash.of_getFn hlru).2.2.2, Option.map_some]
        by_cases hroom₁ : (m.erase lru).Room key
        · obtain ⟨hash', e, s', m', l', fl', htouch, henter, hinv, hshape, hget, horder, hothers, hworld,
            hnew⟩ := enter_eq (s := ⟨world, ⟨hash₁, list₁⟩⟩) hinv₁ build
              (os.close world (s.cache.hash.node slot).data.value) hkey hlookup₁ hroom₁ fd
          refine ⟨s', some e, m', l', fl', ?_, hinv, hshape.trans hshape₁, ?_,
            Or.inr ⟨some lru, ?_, hothers₁.trans_none hothers, ?_⟩⟩
          · rw [touchFn, habsent]
            simp only [bind, Except.bind] at hassertCall ⊢
            simp only [hopen, hnotouch, hpop, hassert, hassertCall, hfd, herase, htouch, henter]
          · rintro slot hslot
            rw [← Option.some.inj hslot]
            exact hget
          · rw [horder]
            exact .evict hlookup hroom horder₁ hroom₁
          · rw [hworld]
            exact .evict hlookup hopen hold hnew
        · refine ⟨⟨os.close (os.close world (s.cache.hash.node slot).data.value) fd, ⟨hash₁, list₁⟩⟩,
            none, _, l₁, fl₁, ?_, hinv₁, hshape₁, ?_,
            Or.inr ⟨some lru, .fail hlookup hroom horder₁ hroom₁, hothers₁,
              .fail hlookup hopen hold⟩⟩
          · have hnotouch₁ := hinv₁.hash.touchFn_of_not_room hlookup₁ hroom₁
            rw [touchFn, habsent]
            simp only [bind, Except.bind] at hassertCall ⊢
            simp only [hopen, hnotouch, hpop, hassert, hassertCall, hfd, herase, hnotouch₁]
            rfl
          · intro slot hslot
            cases hslot

theorem clear_inv (h : s.cache.Inv m l fl) (os : Os W P) {s' : Fdcache W} {hashFn : Option HashFn}
    (hclear : clear os s hashFn = .ok s') : ∃ m' l' fl', s'.cache.Inv m' l' fl' := by
  obtain ⟨world, -, hworld⟩ := bind_eq_ok.mp hclear
  obtain ⟨cs, free, hlayout, -⟩ := h.hash
  cases hworld
  exact ⟨_, _, _, Icache.inv_clear s.cache hlayout.pos h.size hashFn⟩

end Scroller.Fdcache
