import Scroller.Proof.PagecacheTouch

/-!
# Runs of the page cache

Through every run of touches and clears each frame backs one cached page or lies on the stack of free
frames. The reserved key is the exception: the table takes it for an empty slot, so its frame is lost.
-/

namespace Scroller.Pagecache

open Icache (Entry Outcome OthersKept)

variable {W P : Type}

inductive Op where
  | touch (key : Gid)
  | clear (hashFn : Option HashFn)

def Op.Valid : Op → Prop
  | .touch key => key.key ≠ ihashUndef
  | .clear _ => True

instance : (op : Op) → Decidable op.Valid
  | .touch key => inferInstanceAs (Decidable (key.key ≠ ihashUndef))
  | .clear _ => inferInstanceAs (Decidable True)

/-- One call on the page cache; the reply is the entry a touch returned. -/
def step (build : Build) (os : Os W P) (s : Pagecache W P) :
    Op → Except Fault (Pagecache W P × Option Slot)
  | .touch key => s.touchFn build os key
  | .clear hashFn => do
      let s ← s.clear hashFn
      return (s, none)

/-- The frame stored in the entry of a key. -/
def pageIdx (s : Pagecache W P) (key : Int64) : Option Nat :=
  match s.cache.hash.getFn key with
  | .ok (some e) => (s.cache.hash.node e).data.value
  | _ => none

/-- The frames of the cached entries and the frames on the stack are exactly the frames below `n`, each
once. -/
def FramesPartition (s : Pagecache W P) (n : Nat) : Prop :=
  ∃ (keys : List Int64) (stackIdxs : List Nat), keys.Nodup
    ∧ (∀ key, key ∈ keys ↔ ∃ e, s.cache.hash.getFn key = .ok (some e))
    ∧ IndexChain.IsChain s.stack.nexts s.stack.frontIdx stackIdxs
    ∧ (keys.map s.pageIdx ++ stackIdxs.map s.stack.values).Perm ((List.range n).map some)

/-! ### The stack of all frames -/

theorem fill_eq {stack : Ilist2 (Option Nat)} {sl fl : List Nat} (h : stack.Layout sl fl)
    (frames : List Nat) (hroom : frames.length ≤ fl.length) :
    ∃ stack' sl' fl', (frames.foldlM (fun (stack : Ilist2 (Option Nat)) i => do
        let (stack, _) ← stack.putBack (some i)
        return stack) stack : Except Fault _) = .ok stack'
      ∧ stack'.Layout sl' fl'
      ∧ sl'.map stack'.values = sl.map stack.values ++ frames.map some
      ∧ stack'.listsz = stack.listsz := by
  induction frames generalizing stack sl fl with
  | nil => exact ⟨stack, sl, fl, rfl, h, by simp, rfl⟩
  | cons i frames ih =>
      cases fl with
      | nil => simp at hroom
      | cons new fl =>
          obtain ⟨stack₁, hput, hlayout₁, hvalues₁, hsz₁⟩ := h.putBack (some i)
          obtain ⟨stack', sl', fl', hfold, hlayout', hvalues', hsz'⟩ :=
            ih hlayout₁ (by simpa using hroom)
          refine ⟨stack', sl', fl', ?_, hlayout', ?_, hsz'.trans hsz₁⟩
          · rw [List.foldlM_cons, hput]
            exact hfold
          · have hsame : sl.map stack₁.values = sl.map stack.values := by
              rw [hvalues₁]
              refine List.map_congr_left fun j hj => Function.update_of_ne ?_ _ _
              rintro rfl
              exact h.not_mem_free hj (by simp)
            rw [hvalues', List.map_append, List.map_singleton, hsame, hvalues₁,
              Function.update_self, List.append_assoc, List.map_cons, List.singleton_append]

theorem fillStack_eq (stack : Ilist2 (Option Nat)) :
    ∃ stack' sl fl, fillStack stack.clear stack.listsz = .ok stack' ∧ stack'.Layout sl fl
      ∧ (sl.map stack'.values).Perm ((List.range stack.listsz).map some)
      ∧ stack'.listsz = stack.listsz := by
  obtain ⟨stack', sl, fl, hfill, hlayout, hvalues, hsz⟩ :=
    fill_eq (Ilist2.layout_clear stack) (List.range stack.listsz).reverse (by simp)
  refine ⟨stack', sl, fl, hfill, hlayout, ?_, hsz⟩
  rw [hvalues]
  exact (List.reverse_perm _).map some

/-- A cache without entries whose frames all lie on the stack. -/
theorem inv_of_empty (cache : Icache (Option Nat)) (hpos : 0 < cache.hash.bucketsz)
    (hsize : cache.list.listsz = cache.hash.bucketsz + cache.hash.chainsz) (hashFn : Option HashFn)
    {stack : Ilist2 (Option Nat)} {sl sfl : List Nat} (hstack : stack.Layout sl sfl)
    (hvalues : (sl.map stack.values).Perm ((List.range stack.listsz).map some))
    (hsz : stack.listsz = cache.hash.bucketsz + cache.hash.chainsz) {fdcache : Fdcache W}
    (hfd : FdInv fdcache) (pages : Nat → P) :
    Inv { cache := cache.clear hashFn, stack, fdcache, pages }
      (cache.hash.clear hashFn).emptyBuckets [] (List.range cache.list.listsz) sl sfl :=
  ⟨Icache.inv_clear cache hpos hsize hashFn, hstack, hsz, hfd, hvalues⟩

/-! ### The invariant of runs -/

def Holds (n : Nat) (s : Pagecache W P) : Prop :=
  s.cache.hash.bucketsz + s.cache.hash.chainsz = n ∧ ∃ m l fl sl sfl, s.Inv m l fl sl sfl

/-- What the environment provides at the start: a fresh file cache, and the page cache's memory. -/
structure Start (W P : Type) where
  bucketsz : Nat
  chainsz : Nat
  hashFn : Option HashFn
  buckets : Nat → Ihash.Node (Entry (Option Nat))
  chains : Nat → Ihash.Node (Entry (Option Nat))
  nodes : Nat → Ilist2.Node Int64
  stackNodes : Nat → Ilist2.Node (Option Nat)
  fdcache : Fdcache W
  pages : Nat → P

/-- `pagecache_init_fn`. -/
def Start.init (start : Start W P) : Except Fault (Option (Pagecache W P)) :=
  initFn start.buckets start.chains start.nodes start.stackNodes start.bucketsz start.chainsz
    start.hashFn start.fdcache start.pages

theorem holds_init {start : Start W P} (hfd : FdInv start.fdcache) {s : Pagecache W P}
    (hinit : start.init = .ok (some s)) : Holds (start.bucketsz + start.chainsz) s := by
  unfold Start.init initFn Icache.initFn Ihash.initFn at hinit
  by_cases hzero : start.bucketsz = 0
  · rw [if_pos hzero] at hinit
    cases hinit
  · rw [if_neg hzero] at hinit
    obtain ⟨stack, sl, sfl, hfill, hlayout, hvalues, hsz⟩ :=
      fillStack_eq ⟨start.bucketsz + start.chainsz, none, none, none, start.stackNodes⟩
    obtain ⟨stack', hstack', hs⟩ := bind_eq_ok.mp hinit
    have heq : stack' = stack := Except.ok.inj (hstack'.symm.trans hfill)
    cases hs
    subst heq
    exact ⟨rfl, _, _, _, _, _, inv_of_empty
      ⟨⟨start.bucketsz, start.chainsz, none, ihashDefaultHashFn, start.buckets, start.chains⟩,
        ⟨start.bucketsz + start.chainsz, none, none, none, start.nodes⟩⟩
      (Nat.pos_of_ne_zero hzero) rfl _ hlayout (by rw [hsz]; exact hvalues) hsz hfd _⟩

theorem holds_step {n : Nat} {s : Pagecache W P} (h : Holds n s) (build : Build) {os : Os W P}
    (hos : os.PageIoSucceeds) {op : Op} (hop : op.Valid) :
    (∃ s' reply, step build os s op = .ok (s', reply) ∧ Holds n s')
      ∨ ∃ e, step build os s op = .error e ∧ (e = .assertion ∨ e = .nullPointer) := by
  obtain ⟨hn, m, l, fl, sl, sfl, hinv⟩ := h
  cases op with
  | touch key =>
      rcases hinv.touchFn build hos hop with ⟨s', e, m', l', fl', sl', sfl', gone, htouch, hinv',
        hshape, -⟩ | ⟨hcrash, -⟩
      · left
        refine ⟨s', some e, htouch, ?_, m', l', fl', sl', sfl', hinv'⟩
        rw [hshape.bucketsz, hshape.chainsz]
        exact hn
      · right
        rcases hcrash with heq | heq
        · exact ⟨_, heq, Or.inl rfl⟩
        · exact ⟨_, heq, Or.inr rfl⟩
  | clear hashFn =>
      left
      obtain ⟨cs, free, hlayout, -⟩ := hinv.cache.hash
      obtain ⟨stack, sl', sfl', hfill, hlayout', hvalues, hsz⟩ := fillStack_eq s.stack
      rw [hinv.size] at hfill
      refine ⟨{ s with cache := s.cache.clear hashFn, stack }, none, ?_, hn, _, _, _, _, _,
        inv_of_empty _ hlayout.pos hinv.cache.size _ hlayout' (by rw [hsz]; exact hvalues)
          (hsz.trans hinv.size) hinv.fdcache _⟩
      simp only [step, clear, bind, Except.bind, hfill]
      rfl

theorem framesPartition_of_inv {s : Pagecache W P} {m : BucketMap Int64 (Entry (Option Nat))}
    {l fl sl sfl : List Nat} (h : s.Inv m l fl sl sfl) :
    s.FramesPartition (s.cache.hash.bucketsz + s.cache.hash.chainsz) := by
  refine ⟨l.map s.cache.list.values, sl, h.cache.nodup_order, fun key => ?_, h.stack.fwd, ?_⟩
  · rw [h.cache.mem_order, h.cache.hash.present_iff]
  · have hsame : (l.map s.cache.list.values).map s.pageIdx
        = (l.map s.cache.list.values).map (frameOf m) := by
      refine List.map_congr_left fun key hkey => ?_
      obtain ⟨v, hv⟩ := Option.ne_none_iff_exists'.mp (h.cache.mem_order.mp hkey)
      obtain ⟨e, hget, hdata⟩ := h.cache.hash.getFn_some hv
      rw [pageIdx, hget, frameOf, hv, Option.bind_some, ← hdata]
    rw [hsame, ← h.size]
    exact h.frames

/-- **Frame ownership.** From a fresh cache, after every run of touches of valid keys and clears whose
reads and writes succeed, the cached entries and the stack own all frames, each once; and no run leaves
the arrays, as a pop of an empty stack would. -/
theorem run_frames {start : Start W P} {fdbuckets fdchains : Nat → Ihash.Node (Entry Int)}
    {fdnodes : Nat → Ilist2.Node Int64} {fdbucketsz fdchainsz : Nat} {fdhashFn : Option HashFn}
    (hfd : Icache.initFn fdbuckets fdchains fdnodes fdbucketsz fdchainsz fdhashFn
      = some start.fdcache.cache)
    {s₀ : Pagecache W P} (hinit : start.init = .ok (some s₀)) {os : Os W P}
    (hos : os.PageIoSucceeds) (build : Build) (ops : List Op) (hops : ∀ op ∈ ops, op.Valid) :
    (∀ s hist, Machine.exec (step build os) s₀ ops = .ok (s, hist) →
        s.FramesPartition (start.bucketsz + start.chainsz))
      ∧ Machine.exec (step build os) s₀ ops ≠ .error .outOfBounds
      ∧ Machine.exec (step build os) s₀ ops ≠ .error .diverges := by
  have hfdinv : FdInv start.fdcache := by
    obtain ⟨m, fl, hinv⟩ := Icache.inv_init hfd
    exact ⟨m, [], fl, hinv⟩
  rcases Machine.exec_safety (fun _ s => Holds (start.bucketsz + start.chainsz) s)
    Op.Valid (fun e => e = Fault.assertion ∨ e = Fault.nullPointer) []
    (fun _ _ _ hholds hvalid => holds_step hholds build hos hvalid) (holds_init hfdinv hinit) hops
    with ⟨s', hist', hexec, hn, m, l, fl, sl, sfl, hinv⟩ | ⟨e, hexec, he⟩
  · rw [hexec]
    refine ⟨?_, by simp, by simp⟩
    intro s hist heq
    cases heq
    rw [← hn]
    exact framesPartition_of_inv hinv
  · rw [hexec]
    refine ⟨?_, ?_, ?_⟩
    · intro s hist heq
      cases heq
    · rcases he with rfl | rfl <;> simp
    · rcases he with rfl | rfl <;> simp

/-! ### A small cache -/

/-- A system whose files stay empty: a page read from one leaves the frame as it was. -/
def emptyFiles {P : Type} : Os Unit P where
  pagesz := 4096
  openFile world _ := (world, some 3)
  close world _ := world
  pwrite world _ _ _ := (world, some 4096)
  pread world _ page _ := (world, some page)

theorem emptyFiles_succeeds : (emptyFiles (P := P)).PageIoSucceeds :=
  ⟨fun _ _ _ _ => rfl, fun _ _ _ _ => Option.some_ne_none _⟩

/-- One descriptor, and memory that holds zeros. -/
def smallFdcache : Icache Int :=
  Icache.clear ⟨⟨1, 0, none, id, fun _ => ⟨0, ⟨0, none⟩, none⟩, fun _ => ⟨0, ⟨0, none⟩, none⟩⟩,
    ⟨1, none, none, none, fun _ => ⟨0, none, none⟩⟩⟩ none

def smallStart (bucketsz : Nat) (page : P) : Start Unit P where
  bucketsz := bucketsz
  chainsz := 0
  hashFn := none
  buckets _ := ⟨0, ⟨none, none⟩, none⟩
  chains _ := ⟨0, ⟨none, none⟩, none⟩
  nodes _ := ⟨0, none, none⟩
  stackNodes _ := ⟨none, none, none⟩
  fdcache := ⟨(), smallFdcache⟩
  pages _ := page

theorem initFn_smallFdcache :
    Icache.initFn (fun _ => ⟨0, ⟨0, none⟩, none⟩) (fun _ => ⟨0, ⟨0, none⟩, none⟩)
      (fun _ => ⟨0, none, none⟩) 1 0 none = some smallFdcache := rfl

def smallCache (page : P) : Pagecache Unit P :=
  match (smallStart 2 page).init with
  | .ok (some s) => s
  | _ => ⟨⟨⟨0, 0, none, id, fun _ => ⟨0, ⟨none, none⟩, none⟩, fun _ => ⟨0, ⟨none, none⟩, none⟩⟩,
      ⟨0, none, none, none, fun _ => ⟨0, none, none⟩⟩⟩, ⟨0, none, none, none,
      fun _ => ⟨none, none, none⟩⟩, ⟨(), smallFdcache⟩, fun _ => page⟩

theorem init_smallCache (page : P) : (smallStart 2 page).init = .ok (some (smallCache page)) := rfl

/-- Two frames, three pages and a clear. -/
theorem run_frames_small :
    (∀ s hist, Machine.exec (step .debug emptyFiles) (smallCache 0)
        [.touch ⟨1⟩, .touch ⟨2⟩, .touch ⟨3⟩, .clear none, .touch ⟨2⟩] = .ok (s, hist) →
        s.FramesPartition (2 + 0))
      ∧ Machine.exec (step .debug emptyFiles) (smallCache 0)
          [.touch ⟨1⟩, .touch ⟨2⟩, .touch ⟨3⟩, .clear none, .touch ⟨2⟩] ≠ .error .outOfBounds
      ∧ Machine.exec (step .debug emptyFiles) (smallCache 0)
          [.touch ⟨1⟩, .touch ⟨2⟩, .touch ⟨3⟩, .clear none, .touch ⟨2⟩] ≠ .error .diverges :=
  @run_frames _ _ (smallStart 2 0) _ _ _ 1 0 none initFn_smallFdcache _ (init_smallCache 0) _ emptyFiles_succeeds .debug _
    (by decide)

/-- With the reserved key the frames are lost: after one touch of it the single frame neither backs a
cached page nor lies on the stack, and the next touch pops the empty stack. -/
theorem reserved_key_loses_frame :
    ∃ s₀ s e, (smallStart 1 0).init = .ok (some s₀)
      ∧ step .release emptyFiles s₀ (.touch ⟨0xFFFFFFFFFFFFFFFF⟩) = .ok (s, e)
      ∧ ¬ s.FramesPartition 1
      ∧ step .release emptyFiles s (.touch ⟨0xFFFFFFFFFFFFFFFF⟩) = .error .outOfBounds := by
  refine ⟨_, _, _, rfl, rfl, ?_, rfl⟩
  generalize hs : Pagecache.mk _ _ _ _ = s
  have hempty : ∀ key, s.cache.hash.getFn key = .ok none := by
    intro key
    have hidx : s.cache.hash.idx key = 0 := by
      subst hs
      exact Nat.mod_one _
    rw [Ihash.getFn, hidx]
    subst hs
    rfl
  have hfront : s.stack.frontIdx = none := by
    subst hs
    rfl
  rintro ⟨keys, stackIdxs, -, hkeys, hchain, hperm⟩
  rw [hfront] at hchain
  have hstack : stackIdxs = [] := IndexChain.isChain_none.mp hchain
  have hnone : keys = [] := by
    refine List.eq_nil_iff_forall_not_mem.mpr fun key hkey => ?_
    obtain ⟨e, he⟩ := (hkeys key).mp hkey
    rw [hempty] at he
    cases he
  rw [hstack, hnone] at hperm
  simpa using hperm.length_eq

end Scroller.Pagecache
