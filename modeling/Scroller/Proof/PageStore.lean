import Scroller.PageOps
import Scroller.Proof.PageFiles

/-!
# The store of pages

Through every order of uses, flushes, evictions and crashes the page cache and the files are one store of
pages: a use finds what the last use left, and a page that was flushed after its last change outlives the server.
-/

namespace Scroller

open CrashStore (Known)
open Machine (Follows)

variable {W P : Type} {os : Os W P} {files : os.Files} {build : Build}

theorem Boot.of_cachesCreate (files : os.Files) {boot : Boot P} {world : W} {s : Pagecache W P}
    (h : boot.cachesCreate world = .ok (some s)) :
    (∃ m l fl sl sfl, s.Inv m l fl sl sfl) ∧ s.fdcache.Serves files ∧ s.fdcache.world = world
      ∧ ∀ key, s.pageIdx key = none := by
  rw [cachesCreate] at h
  split at h
  · cases h
  · rename_i cache hcache
    obtain ⟨mfd, flfd, hfd⟩ := Icache.inv_init hcache
    have hempty : ∀ key, Fdcache.fdAt mfd key = none := by
      intro key
      have habsent : ¬ mfd.lookup key ≠ none := fun hne => by simpa using hfd.mem_order.mpr hne
      rw [Fdcache.fdAt, not_not.mp habsent]
      rfl
    have hserves : Fdcache.Serves files ⟨world, cache⟩ := by
      refine ⟨mfd, [], flfd, hfd, ?_, ?_⟩
      · intro key fd hkey
        rw [hempty] at hkey
        cases hkey
      · intro key key' fd hkey
        rw [hempty] at hkey
        cases hkey
    let start : Pagecache.Start W P := ⟨boot.bucketsz, boot.chainsz, boot.hashFn, boot.buckets, boot.chains, boot.nodes,
      boot.stackNodes, ⟨world, cache⟩, boot.pages⟩
    have hinit : start.init = .ok (some s) := h
    obtain ⟨-, m, l, fl, sl, sfl, hinv⟩ := Pagecache.holds_init ⟨mfd, [], flfd, hfd⟩ hinit
    unfold Pagecache.Start.init Pagecache.initFn at hinit
    split at hinit
    · cases hinit
    · rename_i pagecache hpagecache
      obtain ⟨stack, -, hstack⟩ := bind_eq_ok.mp hinit
      cases hstack
      refine ⟨⟨m, l, fl, sl, sfl, hinv⟩, hserves, rfl, ?_⟩
      obtain ⟨m₀, fl₀, hinv₀⟩ := Icache.inv_init hpagecache
      intro key
      have habsent : ¬ m₀.lookup key ≠ none := fun hne => by simpa using hinv₀.mem_order.mpr hne
      have hget := hinv₀.hash.getFn_none (not_not.mp habsent)
      rw [Pagecache.pageIdx]
      simp only [hget]

namespace Pagecache

open Icache (Entry)

variable {s s' : Pagecache W P} {a : Known Gid P} {key : Gid}

/-- What is known of the pages is what the cache and the files hold. -/
structure Coherent (files : os.Files) (s : Pagecache W P) (a : Known Gid P) : Prop where
  inv : ∃ m l fl sl sfl, s.Inv m l fl sl sfl
  serves : s.fdcache.Serves files
  value : ∀ {gid p}, a.value gid = some p → s.held files gid = some p
  versions : ∀ {gid versions}, a.versions gid = some versions →
    (∃ p ∈ versions, s.onDisk files gid = some p) ∧ ∃ p ∈ versions, a.value gid = some p

theorem coherent_start {boot : Boot P} {world : W} (h : boot.cachesCreate world = .ok (some s)) {disk : Gid → Option P}
    (hdisk : ∀ {gid p}, disk gid = some p → files.page world gid = some p) : Coherent files s (Known.ofDisk disk) := by
  obtain ⟨hinv, hserves, hworld, hnone⟩ := Boot.of_cachesCreate files h
  refine ⟨hinv, hserves, ?_, ?_⟩
  · intro gid p hp
    rw [held, hnone, onDisk, hworld]
    exact hdisk hp
  · intro gid versions hversions
    obtain ⟨p, hp, rfl⟩ := Option.map_eq_some_iff.mp hversions
    refine ⟨⟨p, rfl, ?_⟩, p, rfl, hp⟩
    rw [onDisk, hworld]
    exact hdisk hp

/-- What is on the disk is a version still where the touched page and the evicted one were held. -/
theorem Coherent.version_kept (h : Coherent files s a)
    (hdisk : ∀ gid p, s.onDisk files gid = some p →
      ∃ q, s'.onDisk files gid = some q ∧ (q = p ∨ s.held files gid = some q))
    {gid : Gid} {versions : Set P} (hversions : a.versions gid = some versions) :
    ∃ p ∈ versions, s'.onDisk files gid = some p := by
  obtain ⟨⟨p, hp, honDisk⟩, q, hq, hvalue⟩ := h.versions hversions
  obtain ⟨r, hr, rfl | hheld⟩ := hdisk gid p honDisk
  · exact ⟨r, hp, hr⟩
  · rw [h.value hvalue] at hheld
    cases hheld
    exact ⟨q, hq, hr⟩

theorem Coherent.use (h : Coherent files s a) (hos : os.PageIoSucceeds) (hkey : key.key ≠ ihashUndef) {f : P → P}
    {reply : Option P} (hstep : s.stepPages build files (.use key f) = .ok (s', reply)) :
    ∃ a', CrashStore.Step (B := Boot P) a (.use key f) reply a' ∧ Coherent files s' a' := by
  obtain ⟨⟨s₁, page⟩, hput, hstep⟩ := bind_eq_ok.mp hstep
  obtain ⟨⟨s₂, slot⟩, htouch, hput⟩ := bind_eq_ok.mp hput
  obtain ⟨m, l, fl, sl, sfl, hinv⟩ := h.inv
  obtain ⟨m', l', fl', sl', sfl', e, idx, rfl, hinv', hserves', hget, hframe, hheld, hdisk⟩ :=
    hinv.of_touchFn h.serves hos hkey htouch
  obtain ⟨hbounds, -, -, hlookup⟩ := hinv'.cache.hash.of_getFn hget
  obtain ⟨n, hload, hput⟩ := bind_eq_ok.mp hput
  rw [Ihash.load_eq hbounds] at hload
  cases hload
  obtain ⟨idx', hidx, hput⟩ := bind_eq_ok.mp hput
  rw [frameOf, hlookup, Option.bind_some] at hframe
  have hsame := frame_eq_ok hidx
  rw [hframe] at hsame
  cases hsame
  cases hput
  cases hstep
  have hframe' : frameOf m' key.key = some idx := by rw [frameOf, hlookup, Option.bind_some, hframe]
  have hinv'' : Inv { s₁ with pages := Function.update s₁.pages idx (f (s₁.pages idx)) } m' l' fl' sl' sfl' :=
    ⟨hinv'.cache, hinv'.stack, hinv'.size, hinv'.fdcache, hinv'.frames⟩
  refine ⟨a.used key (f (s₁.pages idx)), .use ?_, ⟨m', l', fl', sl', sfl', hinv''⟩, hserves', ?_, ?_⟩
  · intro p hp
    have hp := hheld key p (h.value hp)
    rw [hinv'.held_of_frame hframe'] at hp
    exact Option.some.inj hp
  · intro gid p hp
    by_cases hgid : gid = key
    · subst hgid
      rw [Known.value_used] at hp
      rw [hinv''.held_of_frame hframe']
      simp only [Function.update_self]
      exact hp
    · rw [Known.value_used_of_ne _ hgid] at hp
      have hp := hheld gid p (h.value hp)
      cases hold : frameOf m' gid.key with
      | none =>
          rw [hinv'.held_of_no_frame hold] at hp
          rw [hinv''.held_of_no_frame hold]
          exact hp
      | some i =>
          rw [hinv'.held_of_frame hold] at hp
          rw [hinv''.held_of_frame hold]
          have hne : i ≠ idx := by
            rintro rfl
            exact hgid (key_injective (hinv'.frameOf_inj hold hframe'))
          simp only [Function.update_of_ne hne]
          exact hp
  · intro gid versions hversions
    by_cases hgid : gid = key
    · subst hgid
      have hself : (a.used gid (f (s₁.pages idx))).versions gid
          = (a.versions gid).map fun versions => insert (f (s₁.pages idx)) versions := Function.update_self gid _ _
      rw [hself] at hversions
      obtain ⟨old, hold, rfl⟩ := Option.map_eq_some_iff.mp hversions
      obtain ⟨p, hp, honDisk⟩ := h.version_kept hdisk hold
      exact ⟨⟨p, Set.mem_insert_of_mem _ hp, honDisk⟩, _, Set.mem_insert _ _, Known.value_used _ _ _⟩
    · rw [Known.versions_used_of_ne _ hgid] at hversions
      rw [Known.value_used_of_ne _ hgid]
      exact ⟨h.version_kept hdisk hversions, (h.versions hversions).2⟩

theorem Coherent.flush (h : Coherent files s a) (hos : os.PageIoSucceeds) {reply : Option P}
    (hstep : s.stepPages build files (.flush key) = .ok (s', reply)) :
    ∃ a', CrashStore.Step (B := Boot P) a (.flush key) reply a' ∧ Coherent files s' a' := by
  obtain ⟨⟨s₁, n⟩, hflush, hstep⟩ := bind_eq_ok.mp hstep
  cases hstep
  obtain ⟨m, l, fl, sl, sfl, hinv⟩ := h.inv
  obtain ⟨idx, hframe, -, hserves, hs, hwritten⟩ := of_flush hos hinv h.serves hflush
  have hinv' : s'.Inv m l fl sl sfl := by
    rw [hs]
    exact ⟨hinv.cache, hinv.stack, hinv.size, hserves.fdInv, hinv.frames⟩
  have hpages : s'.pages = s.pages := by rw [hs]
  have hpageIdx : ∀ k, s'.pageIdx k = s.pageIdx k := by
    intro k
    rw [hs]
    rfl
  have hvalue : ∀ {gid p}, a.value gid = some p → s'.held files gid = some p := by
    intro gid p hp
    have hp := h.value hp
    cases hold : frameOf m gid.key with
    | some i =>
        rw [hinv.held_of_frame hold] at hp
        rw [hinv'.held_of_frame hold, hpages]
        exact hp
    | none =>
        rw [hinv.held_of_no_frame hold] at hp
        rw [hinv'.held_of_no_frame hold]
        refine hwritten.kept ?_ hp
        rintro rfl
        rw [hframe] at hold
        cases hold
  refine ⟨a.flushed key, .flush, ⟨m, l, fl, sl, sfl, hinv'⟩, hserves, hvalue, ?_⟩
  intro gid versions hversions
  by_cases hgid : gid = key
  · subst hgid
    have hself : (a.flushed gid).versions gid = (a.value gid).map fun p => {p} := Function.update_self gid _ _
    rw [hself] at hversions
    obtain ⟨p, hp, rfl⟩ := Option.map_eq_some_iff.mp hversions
    refine ⟨⟨p, rfl, ?_⟩, p, rfl, hp⟩
    have hheld := h.value hp
    rw [hinv.held_of_frame hframe] at hheld
    rw [← hheld]
    exact hwritten.written
  · have hother : (a.flushed key).versions gid = a.versions gid := Function.update_of_ne hgid _ _
    rw [hother] at hversions
    obtain ⟨⟨p, hp, honDisk⟩, hrest⟩ := h.versions hversions
    exact ⟨⟨p, hp, hwritten.kept hgid honDisk⟩, hrest⟩

theorem Coherent.crash (h : Coherent files s a) {boot : Boot P} {reply : Option P}
    (hstep : s.stepPages build files (.crash boot) = .ok (s', reply)) :
    ∃ a', CrashStore.Step a (.crash boot) reply a' ∧ Coherent files s' a' := by
  obtain ⟨created, hcreate, hstep⟩ := bind_eq_ok.mp hstep
  cases created with
  | none => cases hstep
  | some s₁ =>
      cases hstep
      let disk : Gid → Option P := fun gid => (a.versions gid).bind fun _ => s.onDisk files gid
      refine ⟨Known.ofDisk disk, .crash ⟨?_, ?_⟩, coherent_start hcreate ?_⟩
      · intro gid versions hversions
        obtain ⟨⟨p, hp, honDisk⟩, -⟩ := h.versions hversions
        have hdisk : disk gid = some p := by
          simp only [disk, hversions, Option.bind_some, honDisk]
        refine ⟨p, hp, hdisk, ?_⟩
        simp only [Known.ofDisk, hdisk, Option.map_some]
      · intro gid hnone
        have hdisk : disk gid = none := by simp only [disk, hnone, Option.bind_none]
        refine ⟨hdisk, ?_⟩
        simp only [Known.ofDisk, hdisk, Option.map_none]
      · intro gid p hp
        obtain ⟨-, -, hp⟩ := Option.bind_eq_some_iff.mp hp
        rw [Os.Files.page, files.restart_stored]
        exact hp

/-- The keys that the caches accept. -/
def ValidPageOp : PageOp P → Prop
  | .use key _ => key.key ≠ ihashUndef
  | .flush _ | .crash _ => True

theorem follows_pageStore (files : os.Files) (hos : os.PageIoSucceeds) {boot : Boot P} {world : W}
    {s₀ : Pagecache W P} (hboot : boot.cachesCreate world = .ok (some s₀)) (build : Build) {ops : List (PageOp P)}
    (hops : ∀ op ∈ ops, ValidPageOp op) {s : Pagecache W P} {hist : List (PageOp P × Option P)}
    (hexec : Machine.exec (stepPages build files) s₀ ops = .ok (s, hist)) :
    ∃ a, Follows CrashStore.Step (Known.ofDisk (files.page world)) hist a ∧ Coherent files s a := by
  refine Machine.follows_of_exec (Coherent files) ValidPageOp ?_ (coherent_start hboot fun hp => hp) hops hexec
  intro s a op s' reply h hop hstep
  cases op with
  | use key f => exact h.use hos hop hstep
  | flush key => exact h.flush hos hstep
  | crash boot => exact h.crash hstep

/-- **Coherence of the pages.** Every run from fresh caches over the files is a run of a store of pages: a use
finds what the last use left, or what the files had; behind a crash a page of the files is one of its versions
since it was flushed. -/
theorem run_pageStore (files : os.Files) (hos : os.PageIoSucceeds) {boot : Boot P} {world : W} {s₀ : Pagecache W P}
    (hboot : boot.cachesCreate world = .ok (some s₀)) (build : Build) {ops : List (PageOp P)}
    (hops : ∀ op ∈ ops, ValidPageOp op) {s : Pagecache W P} {hist : List (PageOp P × Option P)}
    (hexec : Machine.exec (stepPages build files) s₀ ops = .ok (s, hist)) :
    ∃ a, Follows CrashStore.Step (Known.ofDisk (files.page world)) hist a ∧ Coherent files s a :=
  follows_pageStore files hos hboot build hops hexec

/-- **Pages that are flushed last.** In the history of every run: a page that was flushed after its last change
is found as that change left it, through every eviction and every crash in between. -/
theorem flushed_page_found (files : os.Files) (hos : os.PageIoSucceeds) {boot : Boot P} {world : W}
    {s₀ : Pagecache W P} (hboot : boot.cachesCreate world = .ok (some s₀)) (build : Build) {ops : List (PageOp P)}
    (hops : ∀ op ∈ ops, ValidPageOp op) {s : Pagecache W P} {before between after : List (PageOp P × Option P)}
    {key : Gid} {f g : P → P} {found found' flushed : Option P}
    (hexec : Machine.exec (stepPages build files) s₀ ops = .ok (s,
      before ++ (.use key f, found) :: between ++ (.flush key, flushed) :: after ++ [(.use key g, found')]))
    (hbetween : ∀ entry ∈ between, entry.1.Leaves key ∧ ∀ boot, entry.1 ≠ .crash boot)
    (hafter : ∀ entry ∈ after, entry.1.Leaves key) : ∃ p, found = some p ∧ found' = some (f p) := by
  obtain ⟨a, hfollows, -⟩ := follows_pageStore files hos hboot build hops hexec
  exact CrashStore.found_of_flushed hfollows hbetween hafter

/-- **What is found does not depend on the caches.** Two servers over the same files, whatever the sizes and the
hash functions of their caches, their memory and their builds, find the same in every run in which both return and
which uses only pages that the files had. -/
theorem found_of_any_caches (files : os.Files) (hos : os.PageIoSucceeds) {boot boot' : Boot P} {world : W}
    {s₀ s₀' : Pagecache W P} (hboot : boot.cachesCreate world = .ok (some s₀))
    (hboot' : boot'.cachesCreate world = .ok (some s₀')) (build build' : Build) {ops : List (PageOp P)}
    (hops : ∀ op ∈ ops, ValidPageOp op ∧ op.Reads (files.page world)) {s s' : Pagecache W P}
    {hist hist' : List (PageOp P × Option P)} (hexec : Machine.exec (stepPages build files) s₀ ops = .ok (s, hist))
    (hexec' : Machine.exec (stepPages build' files) s₀' ops = .ok (s', hist')) : hist' = hist := by
  obtain ⟨a, hfollows, -⟩ := follows_pageStore files hos hboot build (fun op hop => (hops op hop).1) hexec
  obtain ⟨a', hfollows', -⟩ := follows_pageStore files hos hboot' build' (fun op hop => (hops op hop).1) hexec'
  have hfst := Machine.map_fst_of_exec hexec
  refine CrashStore.eq_of_follows hfollows hfollows' (hfst.trans (Machine.map_fst_of_exec hexec').symm) rfl ?_
  intro entry hentry
  refine (hops entry.1 ?_).2
  rw [← hfst]
  exact List.mem_map_of_mem hentry

/-! ### A server with one frame -/

theorem calls_succeed (zero : P) (pagesz : Nat) : (Disk.calls zero pagesz).PageIoSucceeds := by
  refine ⟨fun disk fd page n => ?_, fun disk fd frame n => ?_⟩
  · simp only [Disk.calls]
    split
    · rfl
    · rfl
  · simp only [Disk.calls]
    split
    · exact Option.some_ne_none _
    · exact Option.some_ne_none _

def smallBoot (page : P) : Boot P where
  bucketsz := 1
  chainsz := 0
  hashFn := none
  buckets _ := ⟨0, ⟨none, none⟩, none⟩
  chains _ := ⟨0, ⟨none, none⟩, none⟩
  nodes _ := ⟨0, none, none⟩
  stackNodes _ := ⟨none, none, none⟩
  fdbucketsz := 1
  fdchainsz := 0
  fdhashFn := none
  fdbuckets _ := ⟨0, ⟨0, none⟩, none⟩
  fdchains _ := ⟨0, ⟨0, none⟩, none⟩
  fdnodes _ := ⟨0, none, none⟩
  pages _ := page

def emptyDisk : Disk Nat := ⟨fun _ => [], fun _ => none, 3⟩

/-- The page 2 is changed and flushed, and the page 1 is in its frame when the server crashes. -/
def smallOps : List (PageOp Nat) :=
  [.use ⟨1⟩ fun _ => 7, .use ⟨2⟩ fun _ => 8, .flush ⟨2⟩, .use ⟨1⟩ (· + 1), .crash (smallBoot 0), .use ⟨2⟩ id]

theorem smallOps_valid : ∀ op ∈ smallOps, ValidPageOp op := by
  have h1 : Gid.key ⟨1⟩ ≠ ihashUndef := by decide
  have h2 : Gid.key ⟨2⟩ ≠ ihashUndef := by decide
  simp [smallOps, ValidPageOp, h1, h2]

theorem replies_smallOps :
    (((smallBoot 0).cachesCreate emptyDisk).toOption.join.bind fun s₀ =>
        (Machine.exec (stepPages .debug (Disk.documented 0 4096)) s₀ smallOps).toOption.map fun r => r.2.map Prod.snd)
      = some [some 0, some 7, none, some 7, none, some 8] := by
  decide +kernel

theorem ok_of_toOption {ε α : Type} {x : Except ε α} {a : α} (h : x.toOption = some a) : x = .ok a := by
  cases x with
  | error e => cases h
  | ok b => exact congrArg Except.ok (Option.some.inj h)

/-- A run from its replies. -/
theorem exec_of_replies {ι ω : Type} {boot : Boot P} {world : W}
    {step : Pagecache W P → ι → Except Fault (Pagecache W P × ω)} {ops : List ι} {replies : List ω}
    (h : ((boot.cachesCreate world).toOption.join.bind fun s₀ => (Machine.exec step s₀ ops).toOption.map
      fun r => r.2.map Prod.snd) = some replies) :
    ∃ s₀ s, boot.cachesCreate world = .ok (some s₀) ∧ Machine.exec step s₀ ops = .ok (s, ops.zip replies) := by
  obtain ⟨s₀, hs₀, hrun⟩ := Option.bind_eq_some_iff.mp h
  obtain ⟨⟨s, hist⟩, hexec, hreplies⟩ := Option.map_eq_some_iff.mp hrun
  have hexec := ok_of_toOption hexec
  have hhist : hist = ops.zip replies := List.zip_of_prod (Machine.map_fst_of_exec hexec) hreplies
  rw [hhist] at hexec
  exact ⟨s₀, s, ok_of_toOption (Option.join_eq_some_iff.mp hs₀), hexec⟩

theorem run_pageStore_small :
    ∃ s a, Follows CrashStore.Step (Known.ofDisk ((Disk.documented 0 4096).page emptyDisk))
        (smallOps.zip [some 0, some 7, none, some 7, none, some 8]) a ∧ Coherent (Disk.documented 0 4096) s a := by
  obtain ⟨s₀, s, hboot, hexec⟩ := exec_of_replies replies_smallOps
  exact ⟨s, run_pageStore (Disk.documented 0 4096) (calls_succeed 0 4096) hboot .debug smallOps_valid hexec⟩

theorem flushed_page_found_small : ∃ p, some 7 = some p ∧ some 8 = some ((fun _ => 8 : Nat → Nat) p) := by
  obtain ⟨s₀, s, hboot, hexec⟩ := exec_of_replies replies_smallOps
  have hhist : Machine.exec (stepPages .debug (Disk.documented 0 4096)) s₀ smallOps = .ok (s,
      [(.use ⟨1⟩ fun _ => 7, some 0)] ++ (.use ⟨2⟩ fun _ => 8, some 7) :: [] ++ (.flush ⟨2⟩, none)
        :: [(.use ⟨1⟩ (· + 1), some 7), (.crash (smallBoot 0), none)] ++ [(.use ⟨2⟩ id, some 8)]) := hexec
  refine flushed_page_found (Disk.documented 0 4096) (calls_succeed 0 4096) hboot .debug smallOps_valid hhist ?_ ?_
  · intro entry hentry
    cases hentry
  · simp [CrashStore.Op.Leaves]

/-- The files of the pages 1 and 2. -/
def twoFiles : Disk Nat :=
  ⟨Function.update (Function.update (fun _ => []) (gid2hex ⟨1⟩) [5]) (gid2hex ⟨2⟩) [6], fun _ => none, 3⟩

def usesOps : List (PageOp Nat) := [.use ⟨1⟩ (· + 1), .use ⟨2⟩ id, .use ⟨1⟩ id]

theorem replies_usesOps (n : Nat) (hn : n = 1 ∨ n = 2) :
    (({ smallBoot 0 with bucketsz := n } : Boot Nat).cachesCreate twoFiles).toOption.join.bind (fun s₀ =>
        (Machine.exec (stepPages .debug (Disk.documented 0 4096)) s₀ usesOps).toOption.map fun r => r.2.map Prod.snd)
      = some [some 5, some 6, some 6] := by
  rcases hn with rfl | rfl
  · decide +kernel
  · decide +kernel

/-- A cache of one frame and a cache of two. -/
theorem found_of_any_caches_small :
    ∃ s₀ s₀' s s' hist hist', (smallBoot 0).cachesCreate twoFiles = .ok (some s₀)
      ∧ ({ smallBoot 0 with bucketsz := 2 } : Boot Nat).cachesCreate twoFiles = .ok (some s₀')
      ∧ Machine.exec (stepPages .debug (Disk.documented 0 4096)) s₀ usesOps = .ok (s, hist)
      ∧ Machine.exec (stepPages .debug (Disk.documented 0 4096)) s₀' usesOps = .ok (s', hist') ∧ hist' = hist := by
  obtain ⟨s₀, s, hboot, hexec⟩ := exec_of_replies (replies_usesOps 1 (Or.inl rfl))
  obtain ⟨s₀', s', hboot', hexec'⟩ := exec_of_replies (replies_usesOps 2 (Or.inr rfl))
  refine ⟨s₀, s₀', s, s', _, _, hboot, hboot', hexec, hexec', ?_⟩
  refine found_of_any_caches (Disk.documented 0 4096) (calls_succeed 0 4096) hboot hboot' .debug .debug ?_ hexec hexec'
  have h1 : Gid.key ⟨1⟩ ≠ ihashUndef := by decide
  have h2 : Gid.key ⟨2⟩ ≠ ihashUndef := by decide
  have hpage1 : (Disk.documented 0 4096).page twoFiles ⟨1⟩ ≠ none := Option.some_ne_none 5
  have hpage2 : (Disk.documented 0 4096).page twoFiles ⟨2⟩ ≠ none := Option.some_ne_none 6
  simp [usesOps, ValidPageOp, CrashStore.Op.Reads, h1, h2, hpage1, hpage2]

end Pagecache

end Scroller
