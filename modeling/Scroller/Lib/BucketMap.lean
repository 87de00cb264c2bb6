import Mathlib.Data.UInt
import Mathlib.Data.List.Dedup
import Mathlib.Data.List.Nodup
import Mathlib.Data.List.Perm.Basic
import Mathlib.Data.List.Perm.Subperm
import Mathlib.Logic.Function.Basic
import Mathlib.Algebra.BigOperators.Group.List.Basic

/-!
# Bounded maps with inline heads

A hash table with a fixed number of buckets, one entry inline in each bucket and the others in a pool
shared by all buckets. At this level a bucket is the list of its entries and the pool is the number
of free nodes. Inserting into an empty bucket is free of charge, inserting behind another entry takes
a node, and erasing gives a node back exactly when another entry stays in the bucket.
-/

/-- `size` buckets of entries and `free` unused overflow nodes. -/
structure BucketMap (K V : Type) where
  size : Nat
  index : K → Nat
  entries : Nat → List (K × V)
  free : Nat

namespace BucketMap

variable {K V : Type} [DecidableEq K]

def bucket (m : BucketMap K V) (k : K) : List (K × V) := m.entries (m.index k)

def lookup (m : BucketMap K V) (k : K) : Option V :=
  ((m.bucket k).find? fun p => p.1 = k).map Prod.snd

/-- A new key can be stored: its bucket is empty or the pool has a node left. -/
def Room (m : BucketMap K V) (k : K) : Prop := m.bucket k = [] ∨ 0 < m.free

instance (m : BucketMap K V) (k : K) : Decidable (m.Room k) :=
  inferInstanceAs (Decidable (_ ∨ _))

/-- Stores a key that is not in the map. -/
def insert (m : BucketMap K V) (k : K) (v : V) : BucketMap K V :=
  { m with
    entries := Function.update m.entries (m.index k) (m.bucket k ++ [(k, v)])
    free := if m.bucket k = [] then m.free else m.free - 1 }

/-- Removes a key that is in the map. -/
def erase (m : BucketMap K V) (k : K) : BucketMap K V :=
  { m with
    entries := Function.update m.entries (m.index k) ((m.bucket k).filter fun p => p.1 ≠ k)
    free := if 2 ≤ (m.bucket k).length then m.free + 1 else m.free }

/-- Overwrites the value of a key that is in the map. -/
def set (m : BucketMap K V) (k : K) (v : V) : BucketMap K V :=
  { m with
    entries := Function.update m.entries (m.index k)
      ((m.bucket k).map fun p => if p.1 = k then (k, v) else p) }

/-- Every key sits in the bucket its index names and occurs once, and the entries behind the inline
ones together with the free nodes make up a pool of `pool` nodes. -/
structure Wf (m : BucketMap K V) (pool : Nat) : Prop where
  index_lt : ∀ k, m.index k < m.size
  keyed : ∀ b < m.size, ∀ p ∈ m.entries b, m.index p.1 = b
  distinct : ∀ b < m.size, ((m.entries b).map Prod.fst).Nodup
  budget : ((List.range m.size).map fun b => (m.entries b).length - 1).sum + m.free = pool

section Lookup

variable {m : BucketMap K V} {pool : Nat}

theorem lookup_eq_some_iff (h : m.Wf pool) {k : K} {v : V} :
    m.lookup k = some v ↔ (k, v) ∈ m.bucket k := by
  unfold lookup
  constructor
  · intro hfind
    obtain ⟨⟨k', v'⟩, hp, rfl⟩ := Option.map_eq_some_iff.mp hfind
    have hkey : k' = k := by simpa using List.find?_some hp
    subst hkey
    exact List.mem_of_find?_eq_some hp
  · intro hmem
    cases hfind : (m.bucket k).find? fun p => p.1 = k with
    | none =>
        have := List.find?_eq_none.mp hfind _ hmem
        simp at this
    | some p =>
        have hkey : p.1 = k := by simpa using List.find?_some hfind
        have hp := List.mem_of_find?_eq_some hfind
        have heq := List.inj_on_of_nodup_map (h.distinct _ (h.index_lt k)) hp hmem hkey
        simp [heq]

theorem lookup_eq_none_iff {k : K} :
    m.lookup k = none ↔ ∀ p ∈ m.bucket k, p.1 ≠ k := by
  simp [lookup, List.find?_eq_none]

theorem lookup_of_bucket_eq_nil {k : K} (h : m.bucket k = []) : m.lookup k = none := by
  simp [lookup, h]

theorem lookup_of_mem (h : m.Wf pool) {b : Nat} (hb : b < m.size) {p : K × V}
    (hp : p ∈ m.entries b) : m.lookup p.1 = some p.2 := by
  have hkey := h.keyed b hb p hp
  rw [lookup_eq_some_iff h]
  simpa [bucket, hkey] using hp

end Lookup

section Update

variable {m : BucketMap K V}

omit [DecidableEq K] in
@[simp]
theorem insert_index (k : K) (v : V) : (m.insert k v).index = m.index := rfl

@[simp]
theorem erase_index (k : K) : (m.erase k).index = m.index := rfl

@[simp]
theorem set_index (k : K) (v : V) : (m.set k v).index = m.index := rfl

omit [DecidableEq K] in
@[simp]
theorem insert_size (k : K) (v : V) : (m.insert k v).size = m.size := rfl

@[simp]
theorem erase_size (k : K) : (m.erase k).size = m.size := rfl

@[simp]
theorem set_size (k : K) (v : V) : (m.set k v).size = m.size := rfl

@[simp]
theorem set_free (k : K) (v : V) : (m.set k v).free = m.free := rfl

omit [DecidableEq K] in
theorem bucket_insert (k k' : K) (v : V) :
    (m.insert k v).bucket k'
      = if m.index k' = m.index k then m.bucket k ++ [(k, v)] else m.bucket k' := by
  simp [bucket, insert, Function.update_apply]

theorem bucket_erase (k k' : K) :
    (m.erase k).bucket k'
      = if m.index k' = m.index k then (m.bucket k).filter fun p => p.1 ≠ k
        else m.bucket k' := by
  simp [bucket, erase, Function.update_apply]

theorem bucket_set (k k' : K) (v : V) :
    (m.set k v).bucket k'
      = if m.index k' = m.index k then (m.bucket k).map fun p => if p.1 = k then (k, v) else p
        else m.bucket k' := by
  simp [bucket, set, Function.update_apply]

theorem lookup_insert_self {k : K} {v : V} (hnew : m.lookup k = none) :
    (m.insert k v).lookup k = some v := by
  have hmiss : (m.bucket k).find? (fun p => p.1 = k) = none := by
    simpa [lookup] using hnew
  simp [lookup, bucket_insert, List.find?_append, hmiss]

theorem lookup_insert_of_ne {k k' : K} {v : V} (hne : k' ≠ k) :
    (m.insert k v).lookup k' = m.lookup k' := by
  unfold lookup
  rw [bucket_insert]
  split
  · rename_i hidx
    rw [List.find?_append, show m.bucket k = m.bucket k' by simp [bucket, hidx]]
    simp [Ne.symm hne]
  · rfl

theorem lookup_erase_self {k : K} : (m.erase k).lookup k = none := by
  rw [lookup_eq_none_iff, bucket_erase, if_pos rfl]
  intro p hp
  simpa using (List.mem_filter.mp hp).2

theorem lookup_erase_of_ne {k k' : K} (hne : k' ≠ k) :
    (m.erase k).lookup k' = m.lookup k' := by
  unfold lookup
  rw [bucket_erase]
  split
  · rename_i hidx
    have hsame : (fun p : K × V => decide (decide (p.1 ≠ k) = true ∧ decide (p.1 = k') = true))
        = fun p => decide (p.1 = k') := by
      funext p
      by_cases hp : p.1 = k' <;> simp [hp, hne]
    rw [List.find?_filter, hsame, show m.bucket k = m.bucket k' by simp [bucket, hidx]]
  · rfl

theorem lookup_set_self {k : K} {v : V} (hold : m.lookup k ≠ none) :
    (m.set k v).lookup k = some v := by
  unfold lookup at hold ⊢
  rw [bucket_set, if_pos rfl]
  cases hfind : (m.bucket k).find? fun p => p.1 = k with
  | none => simp [hfind] at hold
  | some p =>
      have hkey : p.1 = k := by simpa using List.find?_some hfind
      have hsame : ((fun p : K × V => decide (p.1 = k)) ∘ fun p => if p.1 = k then (k, v) else p)
          = fun p => decide (p.1 = k) := by
        funext q
        by_cases hq : q.1 = k <;> simp [hq]
      rw [List.find?_map, hsame, hfind]
      simp [hkey]

theorem lookup_set_of_ne {k k' : K} {v : V} (hne : k' ≠ k) :
    (m.set k v).lookup k' = m.lookup k' := by
  unfold lookup
  rw [bucket_set]
  split
  · rename_i hidx
    have hsame : ((fun p : K × V => decide (p.1 = k')) ∘ fun p => if p.1 = k then (k, v) else p)
        = fun p => decide (p.1 = k') := by
      funext q
      by_cases hq : q.1 = k
      · simp [hq, Ne.symm hne]
      · simp [hq]
    rw [show m.bucket k = m.bucket k' by simp [bucket, hidx], List.find?_map, hsame,
      Option.map_map]
    cases hfind : (m.bucket k').find? fun p => p.1 = k' with
    | none => rfl
    | some p =>
        have hkey : p.1 = k' := by simpa using List.find?_some hfind
        simp [hkey, hne]
  · rfl

end Update

section Counting

variable {m : BucketMap K V} {pool : Nat}

omit [DecidableEq K] in
/-- Changing one bucket changes the sum by the difference of that bucket. -/
theorem sum_update (f : Nat → List (K × V)) {n b : Nat} (hb : b < n) (l : List (K × V)) :
    ((List.range n).map fun i => (Function.update f b l i).length - 1).sum + ((f b).length - 1)
      = ((List.range n).map fun i => (f i).length - 1).sum + (l.length - 1) := by
  induction n with
  | zero => omega
  | succ n ih =>
      simp only [List.range_succ, List.map_append, List.map_cons, List.map_nil, List.sum_append,
        List.sum_cons, List.sum_nil, Nat.add_zero]
      by_cases heq : b = n
      · subst heq
        have hsame : (List.range b).map (fun i => (Function.update f b l i).length - 1)
            = (List.range b).map fun i => (f i).length - 1 := by
          refine List.map_congr_left fun i hi => ?_
          have hlt := List.mem_range.mp hi
          rw [Function.update_of_ne (by omega)]
        rw [hsame, Function.update_self]
        omega
      · have hprev := ih (by omega)
        rw [Function.update_of_ne (Ne.symm heq)]
        omega

/-- Where keys are distinct, erasing a key takes out the one entry that has it. -/
theorem filter_key_ne {l r : List (K × V)} {p : K × V} {k : K} (hp : p.1 = k)
    (hnodup : ((l ++ p :: r).map Prod.fst).Nodup) :
    (l ++ p :: r).filter (fun q => q.1 ≠ k) = l ++ r := by
  simp only [List.map_append, List.map_cons] at hnodup
  have hperm := List.nodup_middle.mp hnodup
  rw [List.nodup_cons, ← List.map_append] at hperm
  have hother : ∀ q ∈ l ++ r, decide (q.1 ≠ k) = true := by
    intro q hq
    have hne : q.1 ≠ k := fun heq =>
      hperm.1 (hp.trans heq.symm ▸ List.mem_map_of_mem (f := Prod.fst) hq)
    simpa using hne
  rw [List.filter_append, List.filter_cons_of_neg (by simp [hp]), ← List.filter_append,
    List.filter_eq_self.mpr hother]

/-- Erasing a present key shortens its bucket by exactly one. -/
theorem length_filter_ne (h : m.Wf pool) {k : K} (hold : m.lookup k ≠ none) :
    ((m.bucket k).filter fun p => p.1 ≠ k).length + 1 = (m.bucket k).length := by
  obtain ⟨v, hv⟩ := Option.ne_none_iff_exists'.mp hold
  have hmem := (lookup_eq_some_iff h).mp hv
  have hcount : (m.bucket k).countP (fun p => p.1 = k) = 1 := by
    have hnodup := h.distinct _ (h.index_lt k)
    have hone := List.count_eq_one_of_mem hnodup (List.mem_map_of_mem (f := Prod.fst) hmem)
    rw [List.count_eq_countP, List.countP_map] at hone
    rw [← hone]
    refine List.countP_congr fun p _ => ?_
    simp
  have hsplit := List.length_eq_countP_add_countP (l := m.bucket k) fun p => p.1 = k
  rw [← List.countP_eq_length_filter]
  simp only [decide_not] at hsplit ⊢
  simp only [ne_eq] at *
  rw [hcount] at hsplit
  simpa [Nat.add_comm] using hsplit.symm

theorem wf_erase (h : m.Wf pool) {k : K} (hold : m.lookup k ≠ none) : (m.erase k).Wf pool := by
  have hk := h.index_lt k
  refine ⟨h.index_lt, ?_, ?_, ?_⟩
  · intro b hb p hp
    simp only [erase, Function.update_apply] at hp
    split at hp
    · rename_i heq
      exact (h.keyed _ hk p (List.mem_filter.mp hp).1).trans heq.symm
    · exact h.keyed b hb p hp
  · intro b hb
    simp only [erase, Function.update_apply]
    split
    · exact (h.distinct _ hk).sublist (List.filter_sublist.map _)
    · exact h.distinct b hb
  · have hsum := sum_update m.entries hk ((m.bucket k).filter fun p => p.1 ≠ k)
    have hbudget := h.budget
    have hlen := length_filter_ne h hold
    have hbucket : m.entries (m.index k) = m.bucket k := rfl
    simp only [erase, hbucket] at hsum ⊢
    split <;> omega

end Counting

section Keys

variable {m : BucketMap K V} {pool : Nat}

/-- The keys of the map, bucket after bucket. -/
def keys (m : BucketMap K V) : List K :=
  (List.range m.size).flatMap fun b => (m.entries b).map Prod.fst

theorem mem_keys (h : m.Wf pool) {k : K} : k ∈ m.keys ↔ m.lookup k ≠ none := by
  constructor
  · intro hk
    obtain ⟨b, hb, hmem⟩ := List.mem_flatMap.mp hk
    obtain ⟨p, hp, rfl⟩ := List.mem_map.mp hmem
    rw [lookup_of_mem h (List.mem_range.mp hb) hp]
    exact Option.some_ne_none _
  · intro hk
    obtain ⟨v, hv⟩ := Option.ne_none_iff_exists'.mp hk
    have hmem := (lookup_eq_some_iff h).mp hv
    exact List.mem_flatMap.mpr
      ⟨m.index k, List.mem_range.mpr (h.index_lt k), List.mem_map_of_mem (f := Prod.fst) hmem⟩

omit [DecidableEq K] in
theorem nodup_keys (h : m.Wf pool) : m.keys.Nodup := by
  refine List.nodup_flatMap.mpr ⟨fun b hb => h.distinct b (List.mem_range.mp hb), ?_⟩
  refine List.pairwise_iff_getElem.mpr fun i j hi hj hij => ?_
  simp only [List.length_range] at hi hj
  simp only [List.getElem_range]
  intro k hk hk'
  obtain ⟨p, hp, rfl⟩ := List.mem_map.mp hk
  obtain ⟨q, hq, hqp⟩ := List.mem_map.mp hk'
  have hleft := h.keyed i hi p hp
  have hright := h.keyed j hj q hq
  rw [hqp] at hright
  omega

omit [DecidableEq K] in
/-- Every slot is used, free in the pool, or an empty bucket. -/
theorem length_keys (h : m.Wf pool) :
    m.keys.length + m.free + (List.range m.size).countP (fun b => (m.entries b).isEmpty)
      = m.size + pool := by
  have hsplit : ∀ n, ((List.range n).flatMap fun b => (m.entries b).map Prod.fst).length
      + (List.range n).countP (fun b => (m.entries b).isEmpty)
      = n + ((List.range n).map fun b => (m.entries b).length - 1).sum := by
    intro n
    induction n with
    | zero => rfl
    | succ n ih =>
        simp only [List.range_succ, List.flatMap_append, List.flatMap_cons, List.flatMap_nil,
          List.append_nil, List.length_append, List.length_map, List.countP_append,
          List.countP_singleton, List.map_append, List.map_cons, List.map_nil, List.sum_append,
          List.sum_cons, List.sum_nil, Nat.add_zero]
        cases hentries : m.entries n with
        | nil =>
            simp only [List.length_nil, List.isEmpty_nil, if_true]
            omega
        | cons p l =>
            simp only [List.length_cons, List.isEmpty_cons, Bool.false_eq_true, if_false]
            omega
  have hall := hsplit m.size
  have hbudget := h.budget
  unfold keys
  omega

omit [DecidableEq K] in
theorem length_keys_lt (h : m.Wf pool) {k : K} (hroom : m.Room k) :
    m.keys.length < m.size + pool := by
  have hlen := length_keys h
  rcases hroom with hempty | hfree
  · have hpos : 0 < (List.range m.size).countP fun b => (m.entries b).isEmpty := by
      refine List.countP_pos_iff.mpr ⟨m.index k, List.mem_range.mpr (h.index_lt k), ?_⟩
      rw [List.isEmpty_iff]
      exact hempty
    omega
  · omega

omit [DecidableEq K] in
/-- The map is full when no bucket is empty and the pool is used up. -/
theorem length_keys_eq_iff (h : m.Wf pool) :
    m.keys.length = m.size + pool ↔ m.free = 0 ∧ ∀ b < m.size, m.entries b ≠ [] := by
  have hlen := length_keys h
  constructor
  · intro hfull
    refine ⟨by omega, fun b hb hempty => ?_⟩
    have hnone : (List.range m.size).countP (fun b => (m.entries b).isEmpty) = 0 := by omega
    have hb' := List.countP_eq_zero.mp hnone b (List.mem_range.mpr hb)
    simp [hempty] at hb'
  · rintro ⟨hfree, hfilled⟩
    have hnone : (List.range m.size).countP (fun b => (m.entries b).isEmpty) = 0 := by
      refine List.countP_eq_zero.mpr fun b hb => ?_
      rw [List.isEmpty_iff]
      exact hfilled b (List.mem_range.mp hb)
    omega

theorem perm_keys_of_mem_iff (h : m.Wf pool) {l : List K} (hnodup : l.Nodup)
    (hmem : ∀ k, k ∈ l ↔ m.lookup k ≠ none) : l.Perm m.keys := by
  refine (List.perm_ext_iff_of_nodup hnodup (nodup_keys h)).mpr fun k => ?_
  rw [hmem, mem_keys h]

theorem length_eq_of_mem_iff (h : m.Wf pool) {l : List K} (hnodup : l.Nodup)
    (hmem : ∀ k, k ∈ l ↔ m.lookup k ≠ none) : l.length = m.keys.length :=
  (perm_keys_of_mem_iff h hnodup hmem).length_eq

theorem mem_index_iff (h : m.Wf pool) {l : List K} (hmem : ∀ k, k ∈ l ↔ m.lookup k ≠ none) {b : Nat} :
    b ∈ l.map m.index ↔ b < m.size ∧ m.entries b ≠ [] := by
  constructor
  · intro hb
    obtain ⟨k, hk, rfl⟩ := List.mem_map.mp hb
    exact ⟨h.index_lt k, fun hempty => (hmem k).mp hk (lookup_of_bucket_eq_nil hempty)⟩
  · rintro ⟨hb, hfilled⟩
    obtain ⟨p, rest, hentries⟩ := List.exists_cons_of_ne_nil hfilled
    have hp : p ∈ m.entries b := by
      rw [hentries]
      exact List.mem_cons_self
    refine List.mem_map.mpr ⟨p.1, (hmem p.1).mpr ?_, h.keyed b hb p hp⟩
    rw [lookup_of_mem h hb hp]
    exact Option.some_ne_none _

/-- Room in terms of the present keys: none of them has the bucket of `k`, or they leave a pool node,
each occupied bucket holding one of them itself. -/
theorem room_iff_of_mem_iff (h : m.Wf pool) {l : List K} (hnodup : l.Nodup)
    (hmem : ∀ k, k ∈ l ↔ m.lookup k ≠ none) {k : K} :
    m.Room k ↔ (∀ k' ∈ l, m.index k' ≠ m.index k) ∨ l.length < pool + (l.map m.index).dedup.length := by
  have hempty : m.bucket k = [] ↔ ∀ k' ∈ l, m.index k' ≠ m.index k := by
    have hbucket := mem_index_iff h hmem (b := m.index k)
    rw [and_iff_right (h.index_lt k), List.mem_map] at hbucket
    rw [bucket, ← not_iff_not, ← Ne, ← hbucket]
    push Not
    rfl
  have hused : (l.map m.index).dedup.length
      = (List.range m.size).countP fun b => ¬ (m.entries b).isEmpty := by
    rw [List.countP_eq_length_filter]
    refine List.Perm.length_eq ((List.perm_ext_iff_of_nodup (List.nodup_dedup _)
      (List.nodup_range.filter _)).mpr fun b => ?_)
    rw [List.mem_dedup, mem_index_iff h hmem]
    simp
  have hlen := length_keys h
  have hcount := List.length_eq_countP_add_countP (l := List.range m.size)
    fun b => (m.entries b).isEmpty
  rw [List.length_range] at hcount
  rw [← length_eq_of_mem_iff h hnodup hmem] at hlen
  have hpool : 0 < m.free ↔ l.length < pool + (l.map m.index).dedup.length := by
    rw [hused]
    simp only [Bool.not_eq_true] at hcount ⊢
    omega
  rw [Room, hempty, hpool]

/-- Erasing `old` makes room for `k` when both share a bucket, or when the bucket of `old` holds
another entry, so that erasing it gives a pool node back. -/
theorem room_erase_iff (h : m.Wf pool) {k old : K} (hold : m.lookup old ≠ none)
    (hroom : ¬ m.Room k) :
    (m.erase old).Room k ↔ m.index old = m.index k ∨ 2 ≤ (m.bucket old).length := by
  have hlen := length_filter_ne h hold
  have hbucket : m.bucket k ≠ [] := fun hempty => hroom (Or.inl hempty)
  have hfree : m.free = 0 := by
    by_contra hne
    exact hroom (Or.inr (Nat.pos_of_ne_zero hne))
  unfold Room
  rw [bucket_erase]
  by_cases hidx : m.index k = m.index old
  · refine iff_of_true ?_ (Or.inl hidx.symm)
    rw [if_pos hidx]
    by_cases htwo : 2 ≤ (m.bucket old).length
    · right
      simp [erase, htwo]
    · left
      exact List.length_eq_zero_iff.mp (by omega)
  · rw [if_neg hidx]
    simp only [hbucket, false_or, Ne.symm hidx, erase, hfree]
    split
    · simpa
    · rename_i hshort
      simpa using Nat.lt_of_not_le hshort

end Keys

end BucketMap
