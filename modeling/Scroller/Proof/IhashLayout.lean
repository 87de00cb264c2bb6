import Scroller.Ihash
import Scroller.Lib.BucketMap
import Scroller.Lib.IndexChain

/-!
# The layout of the hash table

Every bucket owns a chain of pool nodes, the freelist owns the rest, and nothing is owned twice. The
layout names those lists. The walks of the hash are described by them once; what each operation does
to the lists is all that later proofs look at.
-/

namespace Scroller.Ihash

open IndexChain

variable {V : Type}

/-- The link of a pool node. -/
def link (hash : Ihash V) (i : Nat) : Option Nat := (hash.node (.chain i)).next

/-- The entries of a bucket when its chain is `cs b`. -/
def slots (hash : Ihash V) (cs : Nat → List Nat) (b : Nat) : List Slot :=
  if (hash.node (.bucket b)).key = ihashUndef then [] else .bucket b :: (cs b).map .chain

theorem slots_eq_nil_iff {hash : Ihash V} {cs : Nat → List Nat} {b : Nat} :
    hash.slots cs b = [] ↔ (hash.node (.bucket b)).key = ihashUndef := by
  unfold slots
  split <;> simp_all

theorem slots_of_ne {hash : Ihash V} {cs : Nat → List Nat} {b : Nat}
    (hkey : (hash.node (.bucket b)).key ≠ ihashUndef) :
    hash.slots cs b = .bucket b :: (cs b).map .chain := by
  rw [slots, if_neg hkey]

/-- What the users of the table see of an entry. -/
def entry (hash : Ihash V) (e : Slot) : Int64 × V := ((hash.node e).key, (hash.node e).data)

/-- The chains `cs` and the freelist `fl` lay out the table. -/
structure Layout (hash : Ihash V) (cs : Nat → List Nat) (fl : List Nat) : Prop where
  pos : 0 < hash.bucketsz
  chain : ∀ b < hash.bucketsz, IsChain hash.link (hash.node (.bucket b)).next (cs b)
  free : IsChain hash.link hash.chainHead fl
  empty : ∀ b < hash.bucketsz, (hash.node (.bucket b)).key = ihashUndef → cs b = []
  pool : ((List.range hash.bucketsz).flatMap cs ++ fl).Perm (List.range hash.chainsz)
  keyed : ∀ b < hash.bucketsz, ∀ e ∈ hash.slots cs b,
    (hash.node e).key ≠ ihashUndef ∧ hash.idx (hash.node e).key = b
  distinct : ∀ b < hash.bucketsz, ((hash.slots cs b).map fun e => (hash.node e).key).Nodup

/-- The table as a bounded map. -/
def toBuckets (hash : Ihash V) (cs : Nat → List Nat) (fl : List Nat) : BucketMap Int64 V where
  size := hash.bucketsz
  index := hash.idx
  entries b := if b < hash.bucketsz then (hash.slots cs b).map hash.entry else []
  free := fl.length

/-- The table lies in memory as the bounded map says. -/
def Refines (hash : Ihash V) (m : BucketMap Int64 V) : Prop :=
  ∃ cs fl, hash.Layout cs fl ∧ m = hash.toBuckets cs fl

namespace Layout

variable {hash : Ihash V} {cs : Nat → List Nat} {fl : List Nat}

theorem idx_lt (h : hash.Layout cs fl) (key : Int64) : hash.idx key < hash.bucketsz :=
  Nat.mod_lt _ h.pos

theorem nodup_pool (h : hash.Layout cs fl) :
    ((List.range hash.bucketsz).flatMap cs ++ fl).Nodup :=
  h.pool.nodup_iff.mpr List.nodup_range

theorem chain_lt (h : hash.Layout cs fl) {b : Nat} (hb : b < hash.bucketsz) {i : Nat}
    (hi : i ∈ cs b) : i < hash.chainsz := by
  refine List.mem_range.mp (h.pool.mem_iff.mp (List.mem_append_left _ ?_))
  exact List.mem_flatMap.mpr ⟨b, List.mem_range.mpr hb, hi⟩

theorem free_lt (h : hash.Layout cs fl) {i : Nat} (hi : i ∈ fl) : i < hash.chainsz :=
  List.mem_range.mp (h.pool.mem_iff.mp (List.mem_append_right _ hi))

theorem not_mem_free (h : hash.Layout cs fl) {b : Nat} (hb : b < hash.bucketsz) {i : Nat}
    (hi : i ∈ cs b) : i ∉ fl := by
  intro hfree
  exact (List.nodup_append.mp h.nodup_pool).2.2 i
    (List.mem_flatMap.mpr ⟨b, List.mem_range.mpr hb, hi⟩) i hfree rfl

theorem owner_unique (h : hash.Layout cs fl) {b b' : Nat} (hb : b < hash.bucketsz)
    (hb' : b' < hash.bucketsz) {i : Nat} (hi : i ∈ cs b) (hi' : i ∈ cs b') : b = b' :=
  eq_of_mem_of_nodup_flatMap (List.nodup_append.mp h.nodup_pool).1 hb hb' hi hi'

theorem length_chain_le (h : hash.Layout cs fl) {b : Nat} (hb : b < hash.bucketsz) :
    (cs b).length ≤ hash.chainsz := by
  have hsub : cs b ⊆ List.range hash.chainsz :=
    fun i hi => List.mem_range.mpr (h.chain_lt hb hi)
  simpa using ((h.chain b hb).nodup.subperm hsub).length_le

theorem inBounds_bucket (h : hash.Layout cs fl) (key : Int64) :
    hash.InBounds (.bucket (hash.idx key)) :=
  h.idx_lt key

theorem slots_inBounds (h : hash.Layout cs fl) {b : Nat} (hb : b < hash.bucketsz) {e : Slot}
    (he : e ∈ hash.slots cs b) : hash.InBounds e := by
  unfold slots at he
  split at he
  · simp at he
  · rcases List.mem_cons.mp he with rfl | he
    · exact hb
    · obtain ⟨i, hi, rfl⟩ := List.mem_map.mp he
      exact h.chain_lt hb hi

end Layout

/-! ### The table as a bounded map -/

section ToBuckets

variable {hash : Ihash V} {cs : Nat → List Nat} {fl : List Nat}

theorem bucket_toBuckets (h : hash.Layout cs fl) (key : Int64) :
    (hash.toBuckets cs fl).bucket key = (hash.slots cs (hash.idx key)).map hash.entry := by
  simp only [BucketMap.bucket, toBuckets]
  rw [if_pos (h.idx_lt key)]

theorem lookup_toBuckets (h : hash.Layout cs fl) (key : Int64) :
    (hash.toBuckets cs fl).lookup key
      = ((hash.slots cs (hash.idx key)).find? fun e => (hash.node e).key = key).map
          fun e => (hash.node e).data := by
  rw [BucketMap.lookup, bucket_toBuckets h, List.find?_map, Option.map_map]
  rfl

theorem Layout.wf (h : hash.Layout cs fl) : (hash.toBuckets cs fl).Wf hash.chainsz := by
  refine ⟨h.idx_lt, ?_, ?_, ?_⟩
  · intro b hb p hp
    simp only [toBuckets] at hb hp ⊢
    rw [if_pos hb] at hp
    obtain ⟨e, he, rfl⟩ := List.mem_map.mp hp
    exact (h.keyed b hb e he).2
  · intro b hb
    simp only [toBuckets] at hb ⊢
    rw [if_pos hb, List.map_map]
    exact h.distinct b hb
  · have hlen := h.pool.length_eq
    simp only [List.length_append, List.length_flatMap, List.length_range] at hlen
    have hsame : ((List.range (hash.toBuckets cs fl).size).map fun b =>
        ((hash.toBuckets cs fl).entries b).length - 1)
          = (List.range hash.bucketsz).map fun b => (cs b).length := by
      refine List.map_congr_left fun b hb => ?_
      have hlt := List.mem_range.mp hb
      simp only [toBuckets] at hlt ⊢
      rw [if_pos hlt, List.length_map, slots]
      split
      · rename_i hkey
        rw [h.empty b hlt hkey]
        rfl
      · simp
    rw [hsame]
    exact hlen

theorem Refines.wf {m : BucketMap Int64 V} (h : hash.Refines m) : m.Wf hash.chainsz := by
  obtain ⟨cs, fl, hlayout, rfl⟩ := h
  exact hlayout.wf

theorem Refines.size_eq {m : BucketMap Int64 V} (h : hash.Refines m) :
    m.size = hash.bucketsz := by
  obtain ⟨cs, fl, -, rfl⟩ := h
  rfl

theorem Refines.index_eq {m : BucketMap Int64 V} (h : hash.Refines m) : m.index = hash.idx := by
  obtain ⟨cs, fl, -, rfl⟩ := h
  rfl

theorem Refines.bucket_eq_nil_iff {m : BucketMap Int64 V} (h : hash.Refines m) {key : Int64} :
    m.bucket key = [] ↔ (hash.node (.bucket (hash.idx key))).key = ihashUndef := by
  obtain ⟨cs, fl, hlayout, rfl⟩ := h
  rw [bucket_toBuckets hlayout, List.map_eq_nil_iff, slots_eq_nil_iff]

theorem Refines.free_eq_zero_iff {m : BucketMap Int64 V} (h : hash.Refines m) :
    m.free = 0 ↔ hash.chainHead = none := by
  obtain ⟨cs, fl, hlayout, rfl⟩ := h
  have hfree := hlayout.free
  simp only [toBuckets, List.length_eq_zero_iff]
  constructor
  · rintro rfl
    exact hfree
  · intro hnone
    rw [hnone] at hfree
    exact isChain_none.mp hfree

theorem Refines.room_iff {m : BucketMap Int64 V} (h : hash.Refines m) {key : Int64} :
    m.Room key ↔
      (hash.node (.bucket (hash.idx key))).key = ihashUndef ∨ hash.chainHead ≠ none := by
  rw [BucketMap.Room, h.bucket_eq_nil_iff, Nat.pos_iff_ne_zero, Ne, h.free_eq_zero_iff]

/-- Where the map has the key, an entry of its bucket holds it. -/
theorem lookup_toBuckets_eq_some (h : hash.Layout cs fl) {key : Int64} {v : V}
    (hlookup : (hash.toBuckets cs fl).lookup key = some v) :
    ∃ e, (hash.slots cs (hash.idx key)).find? (fun e => (hash.node e).key = key) = some e
      ∧ (hash.node e).data = v ∧ (hash.node e).key = key
      ∧ e ∈ hash.slots cs (hash.idx key) := by
  rw [lookup_toBuckets h] at hlookup
  obtain ⟨e, hfind, hdata⟩ := Option.map_eq_some_iff.mp hlookup
  have hkey : (hash.node e).key = key := by simpa using List.find?_some hfind
  exact ⟨e, hfind, hdata, hkey, List.mem_of_find?_eq_some hfind⟩

end ToBuckets

/-! ### The walks -/

section Walks

variable {hash : Ihash V} {key : Int64}

theorem getLoop_succ {e : Slot} (he : hash.InBounds e) (fuel : Nat) :
    hash.getLoop key (fuel + 1) e
      = if key = (hash.node e).key then .ok (some e)
        else match (hash.node e).next with
          | none => .ok none
          | some next => hash.getLoop key fuel (.chain next) := by
  simp only [getLoop, load_eq he, bind, Except.bind]
  rfl

theorem touchLoop_succ {e : Slot} (he : hash.InBounds e) (fuel : Nat) :
    hash.touchLoop key (fuel + 1) e
      = if key = (hash.node e).key then .ok (hash, some e)
        else match (hash.node e).next with
          | none => hash.appendNode key e
          | some next => hash.touchLoop key fuel (.chain next) := by
  simp only [touchLoop, load_eq he, bind, Except.bind]
  rfl

theorem getLoop_eq {fuel : Nat} {e : Slot} {rest : List Nat} (hfuel : rest.length < fuel)
    (he : hash.InBounds e) (hrest : ∀ i ∈ rest, i < hash.chainsz)
    (hchain : IsChain hash.link (hash.node e).next rest) :
    hash.getLoop key fuel e
      = .ok ((e :: rest.map .chain).find? fun s => (hash.node s).key = key) := by
  induction rest generalizing fuel e with
  | nil =>
      obtain ⟨fuel, rfl⟩ := Nat.exists_eq_add_one_of_ne_zero (Nat.ne_of_gt hfuel)
      have hnext : (hash.node e).next = none := hchain
      rw [getLoop_succ he, hnext]
      by_cases hkey : key = (hash.node e).key
      · simp [hkey]
      · simp [hkey, Ne.symm hkey]
  | cons i rest ih =>
      obtain ⟨fuel, rfl⟩ := Nat.exists_eq_add_one_of_ne_zero (Nat.ne_zero_of_lt hfuel)
      obtain ⟨hnext, htail⟩ := hchain
      have hfuel' : rest.length < fuel := by simpa using hfuel
      have hi : hash.InBounds (.chain i) := hrest i (by simp)
      have hrec := ih hfuel' hi (fun j hj => hrest j (by simp [hj])) htail
      rw [getLoop_succ he, hnext]
      by_cases hkey : key = (hash.node e).key
      · simp [hkey]
      · simp only [if_neg hkey, hrec, List.map_cons]
        rw [List.find?_cons_of_neg (l := _ :: _) (by simpa using Ne.symm hkey)]

theorem touchLoop_eq {fuel : Nat} {e : Slot} {rest : List Nat} (hfuel : rest.length < fuel)
    (he : hash.InBounds e) (hrest : ∀ i ∈ rest, i < hash.chainsz)
    (hchain : IsChain hash.link (hash.node e).next rest) :
    hash.touchLoop key fuel e
      = match (e :: rest.map .chain).find? fun s => (hash.node s).key = key with
        | some s => .ok (hash, some s)
        | none => hash.appendNode key ((rest.map .chain).getLastD e) := by
  induction rest generalizing fuel e with
  | nil =>
      obtain ⟨fuel, rfl⟩ := Nat.exists_eq_add_one_of_ne_zero (Nat.ne_of_gt hfuel)
      have hnext : (hash.node e).next = none := hchain
      rw [touchLoop_succ he, hnext]
      by_cases hkey : key = (hash.node e).key
      · simp [hkey]
      · simp [hkey, Ne.symm hkey]
  | cons i rest ih =>
      obtain ⟨fuel, rfl⟩ := Nat.exists_eq_add_one_of_ne_zero (Nat.ne_zero_of_lt hfuel)
      obtain ⟨hnext, htail⟩ := hchain
      have hfuel' : rest.length < fuel := by simpa using hfuel
      have hi : hash.InBounds (.chain i) := hrest i (by simp)
      have hrec := ih hfuel' hi (fun j hj => hrest j (by simp [hj])) htail
      rw [touchLoop_succ he, hnext]
      by_cases hkey : key = (hash.node e).key
      · simp [hkey]
      · simp only [if_neg hkey, hrec, List.map_cons]
        rw [List.find?_cons_of_neg (l := _ :: _) (by simpa using Ne.symm hkey), List.getLastD_cons]

theorem eraseLoop_eq (key : Int64) {fuel : Nat} {prev : Slot} {rest : List Nat} (hfuel : rest.length ≤ fuel)
    (hrest : ∀ i ∈ rest, i < hash.chainsz)
    (hchain : IsChain hash.link (hash.node prev).next rest) {start : Option Nat}
    (hstart : start = (hash.node prev).next) :
    (∀ i ∈ rest, (hash.node (.chain i)).key ≠ key) ∧
        hash.eraseLoop key fuel prev start = .ok (hash, false)
      ∨ ∃ left cur right, rest = left ++ cur :: right
          ∧ (hash.node (.chain cur)).key = key
          ∧ hash.eraseLoop key fuel prev start
            = .ok ((hash.setNext ((left.map .chain).getLastD prev) (hash.link cur)).freeNode cur,
                true) := by
  subst hstart
  induction rest generalizing fuel prev with
  | nil =>
      have hnext : (hash.node prev).next = none := hchain
      left
      simp [eraseLoop, hnext, pure, Except.pure]
  | cons i rest ih =>
      obtain ⟨fuel, rfl⟩ : ∃ k, fuel = k + 1 := ⟨fuel - 1, by simp at hfuel; omega⟩
      obtain ⟨hnext, htail⟩ := hchain
      have hload : hash.load (.chain i) = .ok (hash.node (.chain i)) :=
        load_eq (hrest i (by simp))
      by_cases hkey : key = (hash.node (.chain i)).key
      · refine Or.inr ⟨[], i, rest, rfl, hkey.symm, ?_⟩
        simp only [eraseLoop, hnext, hload, bind, Except.bind]
        rw [if_pos hkey]
        rfl
      · have hstep : hash.eraseLoop key (fuel + 1) prev (hash.node prev).next
            = hash.eraseLoop key fuel (.chain i) (hash.node (.chain i)).next := by
          simp only [eraseLoop, hnext, hload, bind, Except.bind]
          rw [if_neg hkey]
        have hfuel' : rest.length ≤ fuel := by simpa using hfuel
        rcases ih hfuel'
          (fun j hj => hrest j (by simp [hj])) htail with ⟨hmiss, heq⟩ | ⟨l, cur, r, hsplit, hhit, heq⟩
        · refine Or.inl ⟨?_, by rw [hstep, heq]⟩
          intro j hj
          rcases List.mem_cons.mp hj with rfl | hj
          · exact Ne.symm hkey
          · exact hmiss j hj
        · refine Or.inr ⟨i :: l, cur, r, by rw [hsplit]; rfl, hhit, ?_⟩
          rw [hstep, heq, List.map_cons, List.getLastD_cons]

end Walks

end Scroller.Ihash
