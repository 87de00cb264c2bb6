import Scroller.Proof.IcacheTouch

/-!
# Runs of the LRU cache

After every run of touches, puts and clears the list and the table hold the same keys, in the order of
their last successful touches. The times are read off the history of the run, which the code does not
keep.
-/

namespace Scroller.Icache

variable {V : Type}

inductive Op (V : Type) where
  | touch (key : Int64)
  | put (key : Int64) (value : V)
  | clear (hashFn : Option HashFn)

inductive Reply where
  | entry (e : Option Slot)
  | done

def Op.Valid : Op V → Prop
  | .touch key | .put key _ => key ≠ ihashUndef
  | .clear _ => True

instance : (op : Op V) → Decidable op.Valid
  | .touch key | .put key _ => inferInstanceAs (Decidable (key ≠ ihashUndef))
  | .clear _ => inferInstanceAs (Decidable True)

/-- One call on the cache. -/
def step (build : Build) (cache : Icache V) : Op V → Except Fault (Icache V × Reply)
  | .touch key => do
      let (cache, e) ← cache.touchFn build key
      return (cache, .entry e)
  | .put key value => do
      let (cache, e) ← cache.put build key value
      return (cache, .entry e)
  | .clear hashFn => return (cache.clear hashFn, .done)

/-- A call that touched `key` and returned its entry. -/
def touches (key : Int64) : Op V × Reply → Bool
  | (.touch k, .entry (some _)) | (.put k _, .entry (some _)) => k = key
  | _ => false

/-- The time of the last successful touch of a key, counted from 1; never touched is 0. -/
def lastTouch (hist : List (Op V × Reply)) (key : Int64) : Nat :=
  hist.length - hist.reverse.findIdx (touches key)

theorem lastTouch_le (hist : List (Op V × Reply)) (key : Int64) :
    lastTouch hist key ≤ hist.length :=
  Nat.sub_le _ _

theorem lastTouch_append (hist : List (Op V × Reply)) (x : Op V × Reply) (key : Int64) :
    lastTouch (hist ++ [x]) key
      = if touches key x then hist.length + 1 else lastTouch hist key := by
  unfold lastTouch
  rw [List.reverse_append, List.reverse_singleton, List.singleton_append, List.findIdx_cons,
    List.length_append, List.length_singleton]
  cases touches key x
  · simp
  · simp

/-- Keys ordered from the most recent touch to the oldest. -/
def ByLastTouch (hist : List (Op V × Reply)) (order : List Int64) : Prop :=
  order.Pairwise fun k k' => lastTouch hist k' < lastTouch hist k

theorem ByLastTouch.append {hist : List (Op V × Reply)} {order : List Int64}
    (h : ByLastTouch hist order) {x : Op V × Reply} (hx : ∀ k ∈ order, touches k x = false) :
    ByLastTouch (hist ++ [x]) order := by
  refine List.Pairwise.imp_of_mem ?_ h
  intro k k' hk hk' hlt
  rw [lastTouch_append, lastTouch_append, hx k hk, hx k' hk']
  exact hlt

theorem ByLastTouch.cons {hist : List (Op V × Reply)} {order : List Int64} {key : Int64}
    (h : ByLastTouch hist order) (hkey : key ∉ order) {x : Op V × Reply}
    (hx : ∀ k, touches k x = decide (key = k)) : ByLastTouch (hist ++ [x]) (key :: order) := by
  have hother : ∀ k ∈ order, touches k x = false := by
    intro k hk
    rw [hx, decide_eq_false_iff_not]
    rintro rfl
    exact hkey hk
  refine List.pairwise_cons.mpr ⟨?_, h.append hother⟩
  intro k hk
  rw [lastTouch_append, lastTouch_append, hother k hk, hx]
  have hle := lastTouch_le hist k
  simp
  omega

/-- Each outcome of a touch keeps the keys ordered by their last successful touch. -/
theorem Outcome.byLastTouch {m : BucketMap Int64 (Entry V)} {order order' : List Int64}
    {key : Int64} {present : Bool} {gone : Option Int64} {hist : List (Op V × Reply)}
    {x : Op V × Reply} (h : Outcome m order key order' present gone)
    (hmem : ∀ k, k ∈ order ↔ m.lookup k ≠ none) (hnodup : order.Nodup)
    (hsorted : ByLastTouch hist order)
    (hx : ∀ k, touches k x = (present && decide (key = k))) : ByLastTouch (hist ++ [x]) order' := by
  have habsent : m.lookup key = none → key ∉ order := by
    intro hnone hk
    exact (hmem key).mp hk hnone
  cases h with
  | hit _ =>
      refine ByLastTouch.cons (List.Pairwise.sublist List.erase_sublist hsorted)
        (fun hk => (List.Nodup.mem_erase_iff hnodup).mp hk |>.1 rfl) ?_
      simpa using hx
  | fill hnone _ =>
      refine ByLastTouch.cons hsorted (habsent hnone) ?_
      simpa using hx
  | evict hnone _ hsplit _ =>
      subst hsplit
      refine ByLastTouch.cons (List.Pairwise.sublist (List.sublist_append_left _ _) hsorted)
        (fun hk => habsent hnone (List.mem_append_left _ hk)) ?_
      simpa using hx
  | fail hnone _ hsplit _ =>
      subst hsplit
      refine ByLastTouch.append (List.Pairwise.sublist (List.sublist_append_left _ _) hsorted) ?_
      intro k _
      rw [hx]
      rfl

/-! ### The invariant of runs -/

/-- The cache keeps its invariant and lists its keys by their last successful touch. -/
def Agrees (hist : List (Op V × Reply)) (cache : Icache V) : Prop :=
  ∃ m l fl, cache.Inv m l fl ∧ ByLastTouch hist (l.map cache.list.values)

theorem Inv.setValue {cache : Icache V} {m : BucketMap Int64 (Entry V)} {l fl : List Nat}
    {key : Int64} {e : Slot} (h : cache.Inv m l fl) (hget : cache.hash.getFn key = .ok (some e))
    (value : V) :
    Inv { cache with hash := cache.hash.setData e { (cache.hash.node e).data with value := value } }
      (m.set key { (cache.hash.node e).data with value := value }) l fl := by
  obtain ⟨hrefines, -⟩ := h.hash.setData hget { (cache.hash.node e).data with value := value }
  obtain ⟨-, -, -, hlookup⟩ := h.hash.of_getFn hget
  have hold : m.lookup key ≠ none := by
    rw [hlookup]
    simp
  refine ⟨hrefines, h.list, ?_, ?_, ?_⟩
  · change cache.list.listsz = _
    rw [h.size, ← (Ihash.sameShape_modify cache.hash e _).bucketsz,
      ← (Ihash.sameShape_modify cache.hash e _).chainsz]
    rfl
  · intro i hi
    obtain ⟨v, hv⟩ := h.stored i hi
    by_cases hkey : cache.list.values i = key
    · refine ⟨value, ?_⟩
      change (m.set _ _).lookup (cache.list.values i) = _
      rw [hkey, hlookup] at hv
      rw [hkey, BucketMap.lookup_set_self hold, Option.some.inj hv]
    · refine ⟨v, ?_⟩
      change (m.set _ _).lookup (cache.list.values i) = _
      rw [BucketMap.lookup_set_of_ne hkey, hv]
  · intro k hk
    by_cases hkey : k = key
    · rw [hkey]
      exact h.covered key hold
    · rw [BucketMap.lookup_set_of_ne hkey] at hk
      exact h.covered k hk

section StepLemmas

variable {hist : List (Op V × Reply)} {cache : Icache V}

theorem agrees_touch (h : Agrees hist cache) (build : Build) {key : Int64} (hkey : key ≠ ihashUndef) :
    ∃ cache' e, cache.touchFn build key = .ok (cache', e)
      ∧ ∀ x : Op V × Reply, (∀ k, touches k x = (e.isSome && decide (key = k))) →
        (Agrees (hist ++ [x]) cache' ∧ ∀ s, e = some s → cache'.hash.getFn key = .ok (some s)) := by
  obtain ⟨m, l, fl, hinv, hsorted⟩ := h
  obtain ⟨cache', e, m', l', fl', gone, htouch, hinv', -, houtcome, -, hget⟩ :=
    hinv.touchFn build hkey
  refine ⟨cache', e, htouch, fun x hx => ⟨⟨m', l', fl', hinv', ?_⟩, hget⟩⟩
  exact houtcome.byLastTouch (fun k => hinv.mem_order) hinv.nodup_order hsorted hx

theorem agrees_step (h : Agrees hist cache) (build : Build) {op : Op V} (hop : op.Valid) :
    ∃ cache' reply, step build cache op = .ok (cache', reply)
      ∧ Agrees (hist ++ [(op, reply)]) cache' := by
  cases op with
  | touch key =>
      obtain ⟨cache', e, htouch, hagrees⟩ := agrees_touch h build hop
      refine ⟨cache', .entry e, ?_, (hagrees _ fun k => ?_).1⟩
      · rw [step, htouch]
        rfl
      · cases e <;> simp [touches]
  | put key value =>
      obtain ⟨cache', e, htouch, hagrees⟩ := agrees_touch h build hop
      obtain ⟨⟨m', l', fl', hinv', hsorted'⟩, hget⟩ := hagrees (.put key value, .entry e)
        (fun k => by cases e <;> simp [touches])
      cases e with
      | none =>
          refine ⟨cache', .entry none, ?_, m', l', fl', hinv', hsorted'⟩
          rw [step, put, htouch]
          rfl
      | some s =>
          have hget' := hget s rfl
          refine ⟨_, .entry (some s), ?_, _, l', fl', hinv'.setValue hget' value, hsorted'⟩
          rw [step, put, htouch]
          simp only [bind, Except.bind, Ihash.load_eq (hinv'.hash.of_getFn hget').1]
          rfl
  | clear hashFn =>
      obtain ⟨m, l, fl, hinv, -⟩ := h
      obtain ⟨cs, free, hlayout, -⟩ := hinv.hash
      exact ⟨cache.clear hashFn, .done, rfl, _, _, _, inv_clear cache hlayout.pos hinv.size hashFn,
        List.Pairwise.nil⟩

end StepLemmas

theorem agrees_init {buckets chains : Nat → Ihash.Node (Entry V)} {nodes : Nat → Ilist2.Node Int64}
    {bucketsz chainsz : Nat} {hashFn : Option HashFn} {cache : Icache V}
    (hinit : initFn buckets chains nodes bucketsz chainsz hashFn = some cache) :
    Agrees [] cache := by
  obtain ⟨m, fl, hinv⟩ := inv_init hinit
  exact ⟨m, [], fl, hinv, List.Pairwise.nil⟩

/-- **Agreement of table and list.** Every run of valid calls returns, in both builds, and afterwards
the list from front to back is exactly the keys of the table, each once, by their last successful touch,
and every entry stores the index of its key's node. -/
theorem run_agreement {buckets chains : Nat → Ihash.Node (Entry V)}
    {nodes : Nat → Ilist2.Node Int64} {bucketsz chainsz : Nat} {hashFn : Option HashFn}
    {cache₀ : Icache V} (hinit : initFn buckets chains nodes bucketsz chainsz hashFn = some cache₀)
    (build : Build) (ops : List (Op V)) (hops : ∀ op ∈ ops, op.Valid) :
    ∃ cache hist l, Machine.exec (step build) cache₀ ops = .ok (cache, hist)
      ∧ IndexChain.IsChain cache.list.nexts cache.list.frontIdx l
      ∧ IndexChain.IsChain cache.list.prevs cache.list.backIdx l.reverse
      ∧ (l.map cache.list.values).Nodup
      ∧ (∀ key, key ∈ l.map cache.list.values ↔ ∃ e, cache.hash.getFn key = .ok (some e))
      ∧ (l.map cache.list.values).Pairwise (fun k k' => lastTouch hist k' < lastTouch hist k)
      ∧ ∀ i ∈ l, ∃ e, cache.hash.getFn (cache.list.values i) = .ok (some e)
          ∧ (cache.hash.node e).data.lruIdx = some i := by
  obtain ⟨cache, hist, hexec, m, l, fl, hinv, hsorted⟩ := Machine.exec_progress Agrees
    Op.Valid [] (fun _ _ _ hagrees hvalid => agrees_step hagrees build hvalid) (agrees_init hinit) hops
  refine ⟨cache, hist, l, hexec, hinv.list.fwd, hinv.list.bwd, hinv.nodup_order, fun key => ?_,
    hsorted, fun i hi => hinv.getFn_of_mem hi⟩
  rw [hinv.mem_order]
  constructor
  · intro hpresent
    obtain ⟨v, hv⟩ := Option.ne_none_iff_exists'.mp hpresent
    obtain ⟨e, hget, -⟩ := hinv.hash.getFn_some hv
    exact ⟨e, hget⟩
  · rintro ⟨e, hget⟩
    rw [(hinv.hash.of_getFn hget).2.2.2]
    simp

/-- A cache of two buckets without chains: the fourth touch finds no place for its key. -/
theorem run_agreement_collision :
    ∃ cache hist l,
      Machine.exec (step .debug)
        (clear ⟨⟨2, 0, none, id, fun _ => ⟨0, ⟨(), none⟩, none⟩, fun _ => ⟨0, ⟨(), none⟩, none⟩⟩,
          ⟨2, none, none, none, fun _ => ⟨0, none, none⟩⟩⟩ none)
        [.touch 2, .touch 1, .touch 2, .touch 4] = .ok (cache, hist)
      ∧ IndexChain.IsChain cache.list.nexts cache.list.frontIdx l
      ∧ IndexChain.IsChain cache.list.prevs cache.list.backIdx l.reverse
      ∧ (l.map cache.list.values).Nodup
      ∧ (∀ key, key ∈ l.map cache.list.values ↔ ∃ e, cache.hash.getFn key = .ok (some e))
      ∧ (l.map cache.list.values).Pairwise (fun k k' => lastTouch hist k' < lastTouch hist k)
      ∧ ∀ i ∈ l, ∃ e, cache.hash.getFn (cache.list.values i) = .ok (some e)
          ∧ (cache.hash.node e).data.lruIdx = some i :=
  @run_agreement Unit (fun _ => ⟨0, ⟨(), none⟩, none⟩) (fun _ => ⟨0, ⟨(), none⟩, none⟩)
    (fun _ => ⟨0, none, none⟩) 2 0 none _ rfl .debug _ (by decide)

end Scroller.Icache
