import Scroller.Lib.Ledger
import Scroller.Proof.IhashIteration
import Scroller.Proof.TouchGuarantee

/-!
# The descriptors of the file cache

With the opens and closes of the system recorded in a ledger, what the ledger holds is what the cached
entries hold, through every run of touches and clears.
-/

namespace Scroller

open Icache (Entry Outcome OthersKept)
open Ledger (Event held Sound)
open Pagecache (smallFdcache initFn_smallFdcache)

variable {W P : Type}

/-- A system with the descriptors it opened and closed, the oldest first. -/
structure Recorded (W : Type) where
  world : W
  ledger : List (Event Int)

/-- The system with its calls recorded. -/
def Os.recorded (os : Os W P) : Os (Recorded W) P where
  pagesz := os.pagesz
  openFile r file :=
    match os.openFile r.world file with
    | (world, none) => ({ r with world }, none)
    | (world, some fd) => ({ world, ledger := r.ledger ++ [.acquire fd] }, some fd)
  close r fd := { world := os.close r.world fd, ledger := r.ledger ++ [.release fd] }
  pwrite r fd page n :=
    let (world, writtenBytes) := os.pwrite r.world fd page n
    ({ r with world }, writtenBytes)
  pread r fd page n :=
    let (world, page) := os.pread r.world fd page n
    ({ r with world }, page)

/-- A descriptor is given out while it is not open, and is open until it is closed. -/
structure Os.Posix (os : Os W P) (isOpen : W → Int → Prop) : Prop where
  fresh : ∀ world file world' fd, os.openFile world file = (world', some fd) → ¬ isOpen world fd
  opened : ∀ world file world' fd, os.openFile world file = (world', some fd) → isOpen world' fd
  openFile : ∀ world file fd, isOpen world fd → isOpen (os.openFile world file).1 fd
  close : ∀ world fd other, other ≠ fd → isOpen world other → isOpen (os.close world fd) other

/-! ### The ledger -/

/-- The ledger is sound, and what it holds is open. -/
structure Recorded.Consistent (isOpen : W → Int → Prop) (r : Recorded W) : Prop where
  sound : Sound r.ledger
  isOpen : ∀ fd ∈ held r.ledger, isOpen r.world fd

namespace Recorded.Consistent

variable {isOpen : W → Int → Prop} {os : Os W P} {r r' : Recorded W}

theorem openFd_none (h : r.Consistent isOpen) (posix : os.Posix isOpen) {key : Int64}
    (hopen : Fdcache.openFd os.recorded r key = (r', none)) :
    r'.Consistent isOpen ∧ r'.ledger = r.ledger := by
  have hkept := posix.openFile r.world (Gid.ofParts key.toUInt64 0).fileId
  simp only [Fdcache.openFd, Os.recorded] at hopen
  rcases hos : os.openFile r.world (Gid.ofParts key.toUInt64 0).fileId with ⟨world, _ | fd⟩
  · rw [hos] at hopen hkept
    cases hopen
    exact ⟨⟨h.sound, fun fd hfd => hkept fd (h.isOpen fd hfd)⟩, rfl⟩
  · rw [hos] at hopen
    cases hopen

theorem openFd_some (h : r.Consistent isOpen) (posix : os.Posix isOpen) {key : Int64} {fd : Int}
    (hopen : Fdcache.openFd os.recorded r key = (r', some fd)) :
    r'.Consistent isOpen ∧ fd ∉ held r.ledger ∧ held r'.ledger = fd :: held r.ledger := by
  have hkept := posix.openFile r.world (Gid.ofParts key.toUInt64 0).fileId
  simp only [Fdcache.openFd, Os.recorded] at hopen
  rcases hos : os.openFile r.world (Gid.ofParts key.toUInt64 0).fileId with ⟨world, _ | fd'⟩
  · rw [hos] at hopen
    cases hopen
  · rw [hos] at hopen hkept
    cases hopen
    have hfree : fd ∉ held r.ledger := fun hmem => posix.fresh _ _ _ _ hos (h.isOpen fd hmem)
    refine ⟨⟨Ledger.sound_concat.mpr ⟨h.sound, hfree⟩, fun other hother => ?_⟩, hfree,
      Ledger.held_concat⟩
    rw [Ledger.held_concat] at hother
    rcases List.mem_cons.mp hother with rfl | hother
    · exact posix.opened _ _ _ _ hos
    · exact hkept other (h.isOpen other hother)

theorem close (h : r.Consistent isOpen) (posix : os.Posix isOpen) {fd : Int}
    (hfd : fd ∈ held r.ledger) :
    (os.recorded.close r fd).Consistent isOpen
      ∧ held (os.recorded.close r fd).ledger = (held r.ledger).erase fd := by
  refine ⟨⟨Ledger.sound_concat.mpr ⟨h.sound, hfd⟩, fun other hother => ?_⟩, Ledger.held_concat⟩
  simp only [Os.recorded, Ledger.held_concat, Event.apply] at hother
  have hmem := (Ledger.nodup_held h.sound).mem_erase_iff.mp hother
  exact posix.close _ _ _ hmem.1 (h.isOpen other hmem.2)

theorem openFd_close (h : r.Consistent isOpen) (posix : os.Posix isOpen) {key : Int64} {fd old : Int}
    (hopen : Fdcache.openFd os.recorded r key = (r', some fd)) (hold : old ∈ held r.ledger) :
    (os.recorded.close r' old).Consistent isOpen
      ∧ held (os.recorded.close r' old).ledger = fd :: (held r.ledger).erase old := by
  obtain ⟨hr', hfree, hheld⟩ := h.openFd_some posix hopen
  have hmem : old ∈ held r'.ledger := by
    rw [hheld]
    exact List.mem_cons_of_mem fd hold
  obtain ⟨hclosed, hheld'⟩ := hr'.close posix hmem
  have hne : fd ≠ old := by
    rintro rfl
    exact hfree hold
  rw [hheld, List.erase_cons_tail (by simpa using hne)] at hheld'
  exact ⟨hclosed, hheld'⟩

end Recorded.Consistent

namespace Fdcache

variable {isOpen : W → Int → Prop} {os : Os W P} {m m' : BucketMap Int64 (Entry Int)}
  {order order' : List Int64} {key : Int64} {r r' : Recorded W}

/-- The keys `order` of `m` hold what the ledger holds. -/
def HeldBy (r : Recorded W) (m : BucketMap Int64 (Entry Int)) (order : List Int64) : Prop :=
  (order.map (fdAt m)).Perm ((held r.ledger).map some)

/-! ### A touch -/

theorem map_fdAt_congr {gone : Option Int64} (hothers : OthersKept m m' key gone)
    (hkey : key ∉ order) (hgone : ∀ k ∈ order, gone ≠ some k) :
    order.map (fdAt m') = order.map (fdAt m) := by
  refine List.map_congr_left fun k hk => ?_
  have hne : k ≠ key := fun heq => hkey (heq ▸ hk)
  rw [fdAt, hothers k hne, if_neg (hgone k hk), fdAt]

theorem HeldBy.evict {init : List Int64} {lru : Int64} {old : Int} {fds : List Int}
    (h : ((init ++ [lru]).map (fdAt m)).Perm (fds.map some)) (hold : fdAt m lru = some old) :
    old ∈ fds ∧ (init.map (fdAt m)).Perm ((fds.erase old).map some) := by
  rw [List.map_append, List.map_singleton, hold] at h
  have hmem : old ∈ fds := by
    have hsome : some old ∈ fds.map some := h.mem_iff.mp (by simp)
    simpa using hsome
  refine ⟨hmem, List.Perm.cons_inv (a := some old) ?_⟩
  calc (some old :: init.map (fdAt m)).Perm (init.map (fdAt m) ++ [some old]) :=
        (List.perm_append_singleton _ _).symm
    List.Perm _ (fds.map some) := h
    List.Perm _ ((old :: fds.erase old).map some) := (List.perm_cons_erase hmem).map some

/-- **Ownership through a touch.** What the ledger holds afterwards is what the keys then hold. -/
theorem Descriptors.owns {reply : Bool} {gone : Option Int64} (posix : os.Posix isOpen)
    (hr : r.Consistent isOpen) (hheld : HeldBy r m order) (hnodup : order.Nodup)
    (hmem : ∀ k, k ∈ order ↔ m.lookup k ≠ none)
    (hout : Outcome m order key order' reply gone) (hothers : OthersKept m m' key gone)
    (hfd : Descriptors os.recorded r m m' key r' reply gone) :
    r'.Consistent isOpen ∧ HeldBy r' m' order' := by
  cases hout with
  | hit hpresent =>
      cases hfd with
      | hit _ hsame =>
          rw [hsame]
          refine ⟨hr, List.Perm.trans ?_ hheld⟩
          exact (List.perm_cons_erase ((hmem key).mpr hpresent)).symm.map (fdAt m)
      | fill habsent => exact absurd habsent hpresent
  | fill habsent _ =>
      have hkey : key ∉ order := fun hin => (hmem key).mp hin habsent
      cases hfd with
      | hit hpresent => exact absurd habsent hpresent
      | fill _ hopen hnew =>
          obtain ⟨hr', -, hheld'⟩ := hr.openFd_some posix hopen
          refine ⟨hr', ?_⟩
          rw [HeldBy, hheld', List.map_cons, List.map_cons, hnew,
            map_fdAt_congr hothers hkey (by simp)]
          exact hheld.cons _
  | @evict init lru habsent _ hsplit _ =>
      cases hfd with
      | @evict _ fd old _ _ hopen hold hnew =>
          rw [hsplit] at hheld hnodup hmem
          obtain ⟨hin, hperm⟩ := HeldBy.evict hheld hold
          obtain ⟨hr', hheld'⟩ := hr.openFd_close posix hopen hin
          have hkey : key ∉ init := fun hk => (hmem key).mp (by simp [hk]) habsent
          refine ⟨hr', ?_⟩
          rw [HeldBy, hheld', List.map_cons, List.map_cons, hnew,
            map_fdAt_congr hothers hkey (Icache.ne_lru_of_nodup hnodup)]
          exact hperm.cons _
  | @fail _ lru habsent _ hsplit _ =>
      cases hfd with
      | @fail _ fd old _ _ hopen hold =>
          rw [hsplit] at hheld hnodup hmem
          obtain ⟨hin, hperm⟩ := HeldBy.evict hheld hold
          obtain ⟨hr', hheld'⟩ := hr.openFd_close posix hopen hin
          have hkey : key ∉ order' := fun hk => (hmem key).mp (by simp [hk]) habsent
          have hin' := List.mem_cons_self (a := fd) (l := held r.ledger |>.erase old)
          rw [← hheld'] at hin'
          obtain ⟨hr'', hheld''⟩ := hr'.close posix hin'
          refine ⟨hr'', ?_⟩
          rw [HeldBy, hheld'', hheld', List.erase_cons_head,
            map_fdAt_congr hothers hkey (Icache.ne_lru_of_nodup hnodup)]
          exact hperm

/-! ### Closing everything -/

theorem closeLoop_eq {hash : Ihash (Entry Int)} {fuel : Nat} {i : Ihash.Iterator} {entries : List Slot}
    (world : W) (h : hash.foreach fuel i = .ok entries) :
    closeLoop os hash fuel world i
      = .ok ((entries.map fun e => (hash.node e).data.value).foldl os.close world) := by
  induction fuel generalizing i entries world with
  | zero =>
      rcases Ihash.foreach_eq_ok h with ⟨hinvalid, rfl⟩ | ⟨fuel', e, i', rest, hfuel, -⟩
      · unfold closeLoop
        rw [hinvalid]
        rfl
      · cases hfuel
  | succ fuel ih =>
      rcases Ihash.foreach_eq_ok h with
        ⟨hinvalid, rfl⟩ | ⟨fuel', e, i', rest, hfuel, hvalid, hdatum, hload, hnext, hrest, rfl⟩
      · unfold closeLoop
        rw [hinvalid]
        rfl
      · cases hfuel
        have htail := ih (os.close world (hash.node e).data.value) hrest
        unfold closeLoop
        rw [hvalid, hdatum]
        simp only [if_true, hload, hnext, bind, Except.bind, htail]
        rfl

theorem ledger_foldl_close (r : Recorded W) (fds : List Int) :
    (fds.foldl os.recorded.close r).ledger = r.ledger ++ fds.map .release := by
  induction fds generalizing r with
  | nil => simp
  | cons fd fds ih =>
      rw [List.foldl_cons, ih, List.map_cons]
      exact List.append_assoc _ _ _

/-- Closing the descriptors of all entries leaves none held. -/
theorem free_eq (os : Os W P) {s : Fdcache (Recorded W)} {l fl : List Nat} (h : s.cache.Inv m l fl)
    (hr : Sound s.world.ledger) (hheld : HeldBy s.world m (l.map s.cache.list.values)) :
    ∃ r, free os.recorded s = .ok r ∧ Sound r.ledger ∧ held r.ledger = [] := by
  obtain ⟨entries, hvisits, hkeys, hget⟩ := h.hash.foreach
  refine ⟨_, closeLoop_eq s.world hvisits, ?_⟩
  rw [ledger_foldl_close]
  apply Ledger.sound_release_all hr
  apply (List.map_perm_map_iff (Option.some_injective Int)).mp
  have hvalues : (entries.map fun e => (s.cache.hash.node e).data.value).map some
      = m.keys.map (fdAt m) := by
    rw [← hkeys, List.map_map, List.map_map]
    refine List.map_congr_left fun e he => ?_
    simp only [Function.comp_apply, fdAt, (h.hash.of_getFn (hget e he)).2.2.2, Option.map_some]
  rw [hvalues]
  have hperm := BucketMap.perm_keys_of_mem_iff h.hash.wf h.nodup_order fun k => h.mem_order
  exact (hperm.map (fdAt m)).symm.trans hheld

/-! ### Runs -/

/-- The descriptor in the entry of a key. -/
def fd? (s : Fdcache W) (key : Int64) : Option Int :=
  match s.cache.hash.getFn key with
  | .ok (some e) => some (s.cache.hash.node e).data.value
  | _ => none

/-- The descriptors of the cached entries are `fds`, one for each entry. -/
def Holds (s : Fdcache W) (fds : List Int) : Prop :=
  ∃ keys : List Int64, keys.Nodup ∧ (∀ key, key ∈ keys ↔ ∃ e, s.cache.hash.getFn key = .ok (some e))
    ∧ (keys.map s.fd?).Perm (fds.map some)

/-- The cache keeps its invariant, and its entries hold what the ledger holds. -/
def Owns (isOpen : W → Int → Prop) (s : Fdcache (Recorded W)) : Prop :=
  ∃ m l fl, s.cache.Inv m l fl ∧ s.world.Consistent isOpen
    ∧ HeldBy s.world m (l.map s.cache.list.values)

theorem holds_of_heldBy {s : Fdcache (Recorded W)} {l fl : List Nat} (h : s.cache.Inv m l fl)
    (hheld : HeldBy s.world m (l.map s.cache.list.values)) : s.Holds (held s.world.ledger) := by
  refine ⟨l.map s.cache.list.values, h.nodup_order, fun key => ?_, ?_⟩
  · rw [h.mem_order, h.hash.present_iff]
  · have hsame : (l.map s.cache.list.values).map s.fd? = (l.map s.cache.list.values).map (fdAt m) := by
      refine List.map_congr_left fun key hkey => ?_
      obtain ⟨e, hget⟩ := h.hash.present_iff.mp (h.mem_order.mp hkey)
      rw [fd?, hget, fdAt, (h.hash.of_getFn hget).2.2.2]
      rfl
    rw [hsame]
    exact hheld

theorem Owns.step {s : Fdcache (Recorded W)} (h : s.Owns isOpen) (build : Build)
    (posix : os.Posix isOpen) {op : Op} (hop : op.Valid) :
    ∃ s' e, step build os.recorded s op = .ok (s', e) ∧ s'.Owns isOpen := by
  obtain ⟨m, l, fl, hinv, hr, hheld⟩ := h
  cases op with
  | touch key =>
      obtain ⟨s', e, m', l', fl', htouch, hinv', -, -, hcases⟩ :=
        touchFn_eq hinv build os.recorded hop
      refine ⟨s', e, htouch, ?_⟩
      rcases hcases with ⟨-, hfail, -, hsame⟩ | ⟨gone, hout, hothers, hfd⟩
      · obtain ⟨hr', hledger⟩ := hr.openFd_none posix hfail
        refine ⟨m, l, fl, hsame ▸ hinv, hr', ?_⟩
        rw [HeldBy, hledger, hsame]
        exact hheld
      · exact ⟨m', l', fl', hinv',
          hfd.owns posix hr hheld hinv.nodup_order (fun k => hinv.mem_order) hout hothers⟩
  | clear hashFn =>
      obtain ⟨r, hfree, hsound, hnone⟩ := free_eq os hinv hr.sound hheld
      obtain ⟨cs, pool, hlayout, -⟩ := hinv.hash
      refine ⟨{ world := r, cache := s.cache.clear hashFn }, none, ?_, _, _, _,
        Icache.inv_clear s.cache hlayout.pos hinv.size hashFn, ⟨hsound, ?_⟩, ?_⟩
      · rw [free] at hfree
        simp only [Fdcache.step, clear, bind, Except.bind, hfree]
        rfl
      · rw [hnone]
        nofun
      · rw [HeldBy, hnone]
        rfl

/-- **Descriptors are neither leaked nor closed twice.** -/
theorem run_descriptors {buckets chains : Nat → Ihash.Node (Entry Int)}
    {nodes : Nat → Ilist2.Node Int64} {bucketsz chainsz : Nat} {hashFn : Option HashFn}
    {cache : Icache Int} (hinit : Icache.initFn buckets chains nodes bucketsz chainsz hashFn = some cache)
    (posix : os.Posix isOpen) (build : Build) (world : W) (ops : List Op) (hops : ∀ op ∈ ops, op.Valid) :
    ∃ s hist, Machine.exec (step build os.recorded) ⟨⟨world, []⟩, cache⟩ ops = .ok (s, hist)
      ∧ s.Holds (held s.world.ledger) ∧ (held s.world.ledger).Nodup ∧ Sound s.world.ledger
      ∧ (∀ fd, s.world.ledger.count (.release fd) + (held s.world.ledger).count fd
          = s.world.ledger.count (.acquire fd))
      ∧ (∀ key, s.cache.hash.getFn key = .ok none → (openFd os.recorded s.world key).2 = none →
          ∃ s', s.touchFn build os.recorded key = .ok (s', none) ∧ s'.cache = s.cache)
      ∧ ∃ r, free os.recorded s = .ok r ∧ Sound r.ledger ∧ held r.ledger = [] := by
  obtain ⟨m₀, fl₀, hinv₀⟩ := Icache.inv_init hinit
  have hstart : Owns isOpen (⟨⟨world, []⟩, cache⟩ : Fdcache (Recorded W)) :=
    ⟨m₀, [], fl₀, hinv₀, ⟨Ledger.sound_nil, nofun⟩, List.Perm.refl _⟩
  obtain ⟨s, hist, hexec, m, l, fl, hinv, hr, hheld⟩ := Machine.exec_progress
    (fun _ s => Owns isOpen s) Op.Valid []
    (fun _ _ _ howns hvalid => howns.step build posix hvalid) hstart hops
  refine ⟨s, hist, hexec, holds_of_heldBy hinv hheld, Ledger.nodup_held hr.sound, hr.sound,
    Ledger.count_release hr.sound, ?_, free_eq os hinv hr.sound hheld⟩
  intro key habsent hfail
  refine ⟨{ s with world := (openFd os.recorded s.world key).1 }, ?_, rfl⟩
  have hopen : openFd os.recorded s.world key = ((openFd os.recorded s.world key).1, none) :=
    Prod.ext rfl hfail
  rw [touchFn, habsent]
  simp only [bind, Except.bind]
  rw [hopen]
  rfl

/-! ### A small cache -/

/-- A system that numbers the descriptors, and cannot open one file. -/
def countingFiles {P : Type} : Os Int P where
  pagesz := 4096
  openFile next file := if file = 7 then (next, none) else (next + 1, some next)
  close next _ := next
  pwrite next _ _ _ := (next, some 4096)
  pread next _ page _ := (next, some page)

theorem countingFiles_posix : (countingFiles (P := P)).Posix fun next fd => fd < next where
  fresh next file next' fd hopen := by
    simp only [countingFiles] at hopen
    split at hopen
    · cases hopen
    · cases hopen
      exact lt_irrefl next
  opened next file next' fd hopen := by
    simp only [countingFiles] at hopen
    split at hopen
    · cases hopen
    · cases hopen
      omega
  openFile next file fd hfd := by
    simp only [countingFiles]
    split
    · exact hfd
    · omega
  close next fd other _ hother := hother

/-- One slot, an eviction, a file that cannot be opened, and a clear. -/
theorem run_descriptors_small :
    ∃ s hist, Machine.exec (step .debug (countingFiles (P := Unit)).recorded) ⟨⟨3, []⟩, smallFdcache⟩
        [.touch 1, .touch 2, .touch 7, .clear none] = .ok (s, hist)
      ∧ s.Holds (held s.world.ledger) ∧ (held s.world.ledger).Nodup ∧ Sound s.world.ledger
      ∧ (∀ fd, s.world.ledger.count (.release fd) + (held s.world.ledger).count fd
          = s.world.ledger.count (.acquire fd))
      ∧ (∀ key, s.cache.hash.getFn key = .ok none →
          (openFd (countingFiles (P := Unit)).recorded s.world key).2 = none →
          ∃ s', s.touchFn .debug (countingFiles (P := Unit)).recorded key = .ok (s', none)
            ∧ s'.cache = s.cache)
      ∧ ∃ r, free (countingFiles (P := Unit)).recorded s = .ok r ∧ Sound r.ledger
          ∧ held r.ledger = [] :=
  run_descriptors initFn_smallFdcache countingFiles_posix .debug 3 _ (by
    intro op hop
    simp only [List.mem_cons, List.not_mem_nil, or_false] at hop
    rcases hop with rfl | rfl | rfl | rfl
    · exact (by decide : (1 : Int64) ≠ ihashUndef)
    · exact (by decide : (2 : Int64) ≠ ihashUndef)
    · exact (by decide : (7 : Int64) ≠ ihashUndef)
    · trivial)

end Fdcache

end Scroller
