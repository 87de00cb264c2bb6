import Scroller.Proof.IhashLayout

/-!
# The hash table refines a bounded map

Each operation rewires the chain of one bucket and moves at most one node between that chain and the
freelist. `Layout.update` says that such a step keeps the layout and what it does to the bounded map;
the operations below are instances of it.
-/

namespace Scroller.Ihash

open IndexChain

variable {V : Type}

/-- Two tables with the same sizes and the same hash function. -/
structure SameShape (hash' hash : Ihash V) : Prop where
  bucketsz : hash'.bucketsz = hash.bucketsz
  chainsz : hash'.chainsz = hash.chainsz
  hashFn : hash'.hashFn = hash.hashFn

theorem SameShape.idx {hash' hash : Ihash V} (h : SameShape hash' hash) :
    hash'.idx = hash.idx := by
  funext key
  rw [Ihash.idx, Ihash.idx, h.hashFn, h.bucketsz]

theorem SameShape.trans {hash'' hash' hash : Ihash V} (h : SameShape hash'' hash')
    (h' : SameShape hash' hash) : SameShape hash'' hash :=
  ⟨h.bucketsz.trans h'.bucketsz, h.chainsz.trans h'.chainsz, h.hashFn.trans h'.hashFn⟩

theorem sameShape_modify (hash : Ihash V) (e : Slot) (f : Node V → Node V) :
    SameShape (hash.modify e f) hash :=
  ⟨by simp, by simp, by simp⟩

/-- **The update rule.** A step that rewires bucket `b₀` to the chain `l` and leaves the freelist `fl'`
keeps the layout, and the map differs in the entries of that bucket only. -/
theorem Layout.update {hash hash' : Ihash V} {cs : Nat → List Nat} {fl : List Nat} {b₀ : Nat}
    (h : hash.Layout cs fl) (hshape : SameShape hash' hash) (hb₀ : b₀ < hash.bucketsz)
    (l fl' : List Nat) (es : List (Int64 × V))
    (hframe : ∀ b < hash.bucketsz, b ≠ b₀ →
      hash'.node (.bucket b) = hash.node (.bucket b)
        ∧ ∀ i ∈ cs b, hash'.node (.chain i) = hash.node (.chain i))
    (hchain : IsChain hash'.link (hash'.node (.bucket b₀)).next l)
    (hfree : IsChain hash'.link hash'.chainHead fl')
    (hempty : (hash'.node (.bucket b₀)).key = ihashUndef → l = [])
    (hpool : (l ++ fl').Perm (cs b₀ ++ fl))
    (hes : (hash'.slots (Function.update cs b₀ l) b₀).map hash'.entry = es)
    (hkeyed : ∀ p ∈ es, p.1 ≠ ihashUndef ∧ hash.idx p.1 = b₀)
    (hdistinct : (es.map Prod.fst).Nodup) :
    hash'.Layout (Function.update cs b₀ l) fl'
      ∧ hash'.toBuckets (Function.update cs b₀ l) fl'
        = { hash.toBuckets cs fl with
            entries := Function.update (hash.toBuckets cs fl).entries b₀ es
            free := fl'.length } := by
  have hslots : ∀ b < hash.bucketsz, b ≠ b₀ →
      hash'.slots (Function.update cs b₀ l) b = hash.slots cs b
        ∧ ∀ e ∈ hash.slots cs b, hash'.node e = hash.node e := by
    intro b hb hne
    obtain ⟨hbucket, hnodes⟩ := hframe b hb hne
    refine ⟨by rw [slots, slots, hbucket, Function.update_of_ne hne], fun e he => ?_⟩
    unfold slots at he
    split at he
    · simp at he
    · rcases List.mem_cons.mp he with rfl | he
      · exact hbucket
      · obtain ⟨i, hi, rfl⟩ := List.mem_map.mp he
        exact hnodes i hi
  refine ⟨⟨hshape.bucketsz ▸ h.pos, ?_, hfree, ?_, ?_, ?_, ?_⟩, ?_⟩
  · intro b hb
    rw [hshape.bucketsz] at hb
    by_cases heq : b = b₀
    · subst heq
      rwa [Function.update_self]
    · obtain ⟨hbucket, hnodes⟩ := hframe b hb heq
      rw [Function.update_of_ne heq, hbucket]
      exact (h.chain b hb).frame fun i hi => by rw [link, link, hnodes i hi]
  · intro b hb hkey
    rw [hshape.bucketsz] at hb
    by_cases heq : b = b₀
    · subst heq
      rw [Function.update_self]
      exact hempty hkey
    · rw [Function.update_of_ne heq]
      rw [(hframe b hb heq).1] at hkey
      exact h.empty b hb hkey
  · rw [hshape.bucketsz, hshape.chainsz]
    refine List.Perm.trans ?_ h.pool
    have hexchange := flatMap_update_exchange hb₀ cs l
    rw [List.perm_iff_count] at hexchange hpool ⊢
    intro a
    have hleft := hexchange a
    have hright := hpool a
    simp only [List.count_append] at hleft hright ⊢
    omega
  · intro b hb e he
    rw [hshape.bucketsz] at hb
    rw [hshape.idx]
    by_cases heq : b = b₀
    · subst heq
      have hmem : hash'.entry e ∈ es := hes ▸ List.mem_map_of_mem he
      exact hkeyed _ hmem
    · obtain ⟨hsame, hnodes⟩ := hslots b hb heq
      rw [hsame] at he
      rw [hnodes e he]
      exact h.keyed b hb e he
  · intro b hb
    rw [hshape.bucketsz] at hb
    by_cases heq : b = b₀
    · subst heq
      rw [← hes, List.map_map] at hdistinct
      exact hdistinct
    · obtain ⟨hsame, hnodes⟩ := hslots b hb heq
      rw [hsame, List.map_congr_left fun e he => by rw [hnodes e he]]
      exact h.distinct b hb
  · simp only [toBuckets, hshape.bucketsz, hshape.idx, BucketMap.mk.injEq, true_and, and_true]
    funext b
    by_cases heq : b = b₀
    · subst heq
      rw [Function.update_self, if_pos hb₀, hes]
    · rw [Function.update_of_ne heq]
      split
      · rename_i hb
        obtain ⟨hsame, hnodes⟩ := hslots b hb heq
        rw [hsame]
        exact List.map_congr_left fun e he => by rw [entry, entry, hnodes e he]
      · rfl

/-! ### Lookup -/

section Lookup

variable {hash : Ihash V} {cs : Nat → List Nat} {fl : List Nat} {m : BucketMap Int64 V} {key : Int64}

theorem Layout.getFn_eq (h : hash.Layout cs fl) (key : Int64) :
    hash.getFn key
      = .ok ((hash.slots cs (hash.idx key)).find? fun e => (hash.node e).key = key) := by
  have hb := h.idx_lt key
  rw [getFn, load_eq (h.inBounds_bucket key)]
  simp only [bind, Except.bind]
  split
  · rename_i hundef
    rw [slots_eq_nil_iff.mpr hundef]
    rfl
  · rename_i hne
    rw [getLoop_eq (Nat.lt_succ_of_le (h.length_chain_le hb)) (h.inBounds_bucket key)
      (fun i hi => h.chain_lt hb hi) (h.chain _ hb), ← slots_of_ne hne]

theorem Layout.find?_of_mem (h : hash.Layout cs fl) {b : Nat} (hb : b < hash.bucketsz) {e : Slot}
    (he : e ∈ hash.slots cs b) :
    (hash.slots cs b).find? (fun s => (hash.node s).key = (hash.node e).key) = some e := by
  cases hfind : (hash.slots cs b).find? fun s => (hash.node s).key = (hash.node e).key with
  | none =>
      have hmiss := List.find?_eq_none.mp hfind e he
      simp at hmiss
  | some s =>
      have hkey : (hash.node s).key = (hash.node e).key := by simpa using List.find?_some hfind
      rw [List.inj_on_of_nodup_map (h.distinct b hb) (List.mem_of_find?_eq_some hfind) he hkey]

theorem Layout.getFn_of_mem (h : hash.Layout cs fl) {e : Slot} {key : Int64}
    (he : e ∈ hash.slots cs (hash.idx key)) (hkey : (hash.node e).key = key) :
    hash.getFn key = .ok (some e) := by
  have hfind := h.find?_of_mem (h.idx_lt key) he
  rw [hkey] at hfind
  rw [h.getFn_eq, hfind]

/-- **Lookup.** `ihash_get_fn` never fails, and the data behind its answer is the map's value. -/
theorem Refines.getFn (h : hash.Refines m) (key : Int64) :
    ∃ e, hash.getFn key = .ok e ∧ m.lookup key = e.map fun s => (hash.node s).data := by
  obtain ⟨cs, fl, hlayout, rfl⟩ := h
  exact ⟨_, hlayout.getFn_eq key, lookup_toBuckets hlayout key⟩

theorem Refines.of_getFn (h : hash.Refines m) {e : Slot} (hget : hash.getFn key = .ok (some e)) :
    hash.InBounds e ∧ (hash.node e).key = key ∧ key ≠ ihashUndef
      ∧ m.lookup key = some (hash.node e).data := by
  obtain ⟨cs, fl, hlayout, rfl⟩ := h
  rw [hlayout.getFn_eq] at hget
  have hfind := Except.ok.inj hget
  have hmem := List.mem_of_find?_eq_some hfind
  have hkey : (hash.node e).key = key := by simpa using List.find?_some hfind
  refine ⟨hlayout.slots_inBounds (hlayout.idx_lt key) hmem, hkey, ?_, ?_⟩
  · exact hkey ▸ (hlayout.keyed _ (hlayout.idx_lt key) e hmem).1
  · rw [lookup_toBuckets hlayout, hfind]
    rfl

theorem Refines.getFn_some (h : hash.Refines m) {v : V} (hlookup : m.lookup key = some v) :
    ∃ e, hash.getFn key = .ok (some e) ∧ (hash.node e).data = v := by
  obtain ⟨e, hget, hsame⟩ := h.getFn key
  rw [hlookup] at hsame
  obtain ⟨s, rfl, hdata⟩ := Option.map_eq_some_iff.mp hsame.symm
  exact ⟨s, hget, hdata⟩

theorem Refines.present_iff (h : hash.Refines m) :
    m.lookup key ≠ none ↔ ∃ e, hash.getFn key = .ok (some e) := by
  constructor
  · intro hpresent
    obtain ⟨v, hv⟩ := Option.ne_none_iff_exists'.mp hpresent
    obtain ⟨e, hget, -⟩ := h.getFn_some hv
    exact ⟨e, hget⟩
  · rintro ⟨e, hget⟩
    rw [(h.of_getFn hget).2.2.2]
    exact Option.some_ne_none _

theorem Refines.getFn_none (h : hash.Refines m) (hlookup : m.lookup key = none) :
    hash.getFn key = .ok none := by
  obtain ⟨e, hget, hsame⟩ := h.getFn key
  rw [hlookup] at hsame
  rw [hget, Option.map_eq_none_iff.mp hsame.symm]

/-- The bucket of a present key holds a second entry when its inline slot has a link. -/
theorem Refines.two_le_length_iff (h : hash.Refines m) (hlookup : m.lookup key ≠ none) :
    2 ≤ (m.bucket key).length ↔ (hash.node (.bucket (hash.idx key))).next ≠ none := by
  have hne : m.bucket key ≠ [] := fun hnil => hlookup (BucketMap.lookup_of_bucket_eq_nil hnil)
  rw [Ne, h.bucket_eq_nil_iff] at hne
  obtain ⟨cs, fl, hlayout, rfl⟩ := h
  have hchain := hlayout.chain _ (hlayout.idx_lt key)
  rw [bucket_toBuckets hlayout, List.length_map, slots_of_ne hne, List.length_cons, List.length_map]
  cases hcs : cs (hash.idx key) with
  | nil =>
      rw [hcs] at hchain
      exact iff_of_false (by simp) (fun hnext => hnext hchain)
  | cons i rest =>
      rw [hcs] at hchain
      refine iff_of_true (by simp) ?_
      rw [hchain.1]
      simp

end Lookup

/-- The data found under a key. -/
def value (hash : Ihash V) (key : Int64) : Option V :=
  match hash.getFn key with
  | .ok (some e) => some (hash.node e).data
  | _ => none

/-- No entry can be made for a new key: its bucket is occupied and the chain pool has no free node. -/
def Exhausted (hash : Ihash V) (key : Int64) : Prop :=
  (hash.node (.bucket (hash.idx key))).key ≠ ihashUndef ∧ hash.chainHead = none

theorem Refines.value_eq {hash : Ihash V} {m : BucketMap Int64 V} (h : hash.Refines m)
    (key : Int64) : hash.value key = m.lookup key := by
  obtain ⟨e, hget, hlookup⟩ := h.getFn key
  rw [value, hget, hlookup]
  cases e <;> rfl

theorem Refines.not_room_iff {hash : Ihash V} {m : BucketMap Int64 V} (h : hash.Refines m)
    {key : Int64} : ¬ m.Room key ↔ hash.Exhausted key := by
  rw [h.room_iff, Exhausted]
  tauto

/-! ### Writing through a pointer -/

theorem Refines.setData {hash : Ihash V} {m : BucketMap Int64 V} (h : hash.Refines m) {key : Int64}
    {e : Slot} (hget : hash.getFn key = .ok (some e)) (v : V) :
    (hash.setData e v).Refines (m.set key v)
      ∧ (hash.setData e v).getFn key = .ok (some e) := by
  obtain ⟨cs, fl, hlayout, rfl⟩ := h
  rw [hlayout.getFn_eq] at hget
  have hfind := Except.ok.inj hget
  have hmem := List.mem_of_find?_eq_some hfind
  have hkey : (hash.node e).key = key := by simpa using List.find?_some hfind
  have hb := hlayout.idx_lt key
  have hnode : ∀ s, ((hash.setData e v).node s).key = (hash.node s).key
      ∧ ((hash.setData e v).node s).next = (hash.node s).next := by
    intro s
    rw [Ihash.setData, node_modify]
    split
    · rename_i heq
      rw [heq]
      exact ⟨rfl, rfl⟩
    · exact ⟨rfl, rfl⟩
  have hlink : (hash.setData e v).link = hash.link := by
    funext i
    exact (hnode (.chain i)).2
  have hslots : (hash.setData e v).slots cs = hash.slots cs := by
    funext b
    rw [slots, slots, (hnode _).1]
  have hother : ∀ b < hash.bucketsz, b ≠ hash.idx key → ∀ s, s = .bucket b ∨ s ∈ (cs b).map .chain →
      s ≠ e := by
    rintro b hlt hne s hs rfl
    unfold slots at hmem
    split at hmem
    · simp at hmem
    · rcases hs with rfl | hs
      · rcases List.mem_cons.mp hmem with hsame | hchain
        · exact hne (Slot.bucket.inj hsame)
        · simp at hchain
      · obtain ⟨i, hi, rfl⟩ := List.mem_map.mp hs
        rcases List.mem_cons.mp hmem with hsame | hchain
        · simp at hsame
        · obtain ⟨j, hj, hji⟩ := List.mem_map.mp hchain
          cases hji
          exact hne (hlayout.owner_unique hlt hb hi hj)
  have hupdate := hlayout.update (show SameShape (hash.setData e v) hash from sameShape_modify _ _ _) hb
    (cs (hash.idx key)) fl
    ((hash.slots cs (hash.idx key)).map fun s =>
      if (hash.node s).key = key then (key, v) else hash.entry s)
    (fun b hlt hne => ⟨node_modify_of_ne _ _ _ (hother b hlt hne _ (Or.inl rfl)), fun i hi =>
      node_modify_of_ne _ _ _ (hother b hlt hne _ (Or.inr (List.mem_map_of_mem hi)))⟩)
    (by rw [hlink, (hnode _).2]; exact hlayout.chain _ hb)
    (by rw [hlink, Ihash.setData, chainHead_modify]; exact hlayout.free)
    (by rw [(hnode _).1]; exact hlayout.empty _ hb)
    (List.Perm.refl _)
    (by
      rw [Function.update_eq_self, hslots]
      refine List.map_congr_left fun s hs => ?_
      rw [entry, (hnode s).1]
      by_cases hsk : (hash.node s).key = key
      · have hse : s = e := List.inj_on_of_nodup_map (hlayout.distinct _ hb) hs hmem (hsk.trans hkey.symm)
        rw [if_pos hsk, hse, hkey, Ihash.setData, node_modify_self]
      · have hse : s ≠ e := fun heq => hsk (heq ▸ hkey)
        rw [if_neg hsk, Ihash.setData, node_modify_of_ne _ _ _ hse, entry])
    (by
      intro p hp
      obtain ⟨s, hs, rfl⟩ := List.mem_map.mp hp
      have hold := hlayout.keyed _ hb s hs
      split
      · rename_i hsk
        rwa [hsk] at hold
      · exact hold)
    (by
      have hsame : ((hash.slots cs (hash.idx key)).map fun s =>
          if (hash.node s).key = key then (key, v) else hash.entry s).map Prod.fst
            = (hash.slots cs (hash.idx key)).map fun s => (hash.node s).key := by
        rw [List.map_map]
        refine List.map_congr_left fun s _ => ?_
        by_cases hsk : (hash.node s).key = key <;> simp [hsk, entry]
      rw [hsame]
      exact hlayout.distinct _ hb)
  rw [Function.update_eq_self] at hupdate
  obtain ⟨hlayout', hbuckets⟩ := hupdate
  refine ⟨⟨cs, fl, hlayout', ?_⟩, ?_⟩
  · rw [hbuckets, BucketMap.set, bucket_toBuckets hlayout, List.map_map]
    rfl
  · refine hlayout'.getFn_of_mem ?_ (by rw [(hnode e).1, hkey])
    rw [hslots, Ihash.setData, idx_modify]
    exact hmem

/-! ### Inserting -/

section Touch

variable {hash : Ihash V} {cs : Nat → List Nat} {fl : List Nat} {m : BucketMap Int64 V} {key : Int64}

theorem appendNode_eq (key : Int64) {e : Slot} {new : Nat} (hhead : hash.chainHead = some new)
    (hnew : new < hash.chainsz) (hne : e ≠ .chain new) :
    ∃ hash', hash.appendNode key e = .ok (hash', some (.chain new)) ∧ SameShape hash' hash
      ∧ hash'.chainHead = hash.link new
      ∧ hash'.node e = { hash.node e with next := some new }
      ∧ hash'.node (.chain new) = { hash.node (.chain new) with key := key, next := none }
      ∧ ∀ s, s ≠ e → s ≠ .chain new → hash'.node s = hash.node s := by
  have hload : (hash.setNext e (some new)).load (.chain new)
      = .ok (hash.node (.chain new)) := by
    rw [load_eq (by simpa [InBounds, setNext] using hnew), setNext, node_modify_of_ne _ _ _ hne.symm]
  refine ⟨(({ hash.setNext e (some new) with chainHead := hash.link new } : Ihash V).setKey
    (.chain new) key).setNext (.chain new) none, ?_, ?_, ?_, ?_, ?_, ?_⟩
  · rw [appendNode, hhead]
    simp only [hload, bind, Except.bind]
    rfl
  · exact ⟨by simp [setNext, setKey], by simp [setNext, setKey], by simp [setNext, setKey]⟩
  · simp only [setNext, setKey, chainHead_modify]
  · simp only [setNext, setKey, node_modify_of_ne _ _ _ hne]
    exact node_modify_self hash e _
  · simp only [setNext, setKey, node_modify_self]
    congr 1
    exact congrArg Node.data (node_modify_of_ne hash e _ hne.symm)
  · intro s hse hsnew
    simp only [setNext, setKey, node_modify_of_ne _ _ _ hsnew]
    exact node_modify_of_ne hash e _ hse

theorem Layout.touchFn_eq (h : hash.Layout cs fl) (key : Int64) :
    hash.touchFn key
      = if (hash.node (.bucket (hash.idx key))).key = ihashUndef then
          .ok ((hash.setKey (.bucket (hash.idx key)) key).setNext (.bucket (hash.idx key)) none,
            some (.bucket (hash.idx key)))
        else match (hash.slots cs (hash.idx key)).find? fun s => (hash.node s).key = key with
          | some s => .ok (hash, some s)
          | none => hash.appendNode key
              (((cs (hash.idx key)).map .chain).getLastD (.bucket (hash.idx key))) := by
  have hb := h.idx_lt key
  rw [touchFn, load_eq (h.inBounds_bucket key)]
  simp only [bind, Except.bind]
  split
  · rfl
  · rename_i hne
    rw [slots_of_ne hne]
    exact touchLoop_eq (Nat.lt_succ_of_le (h.length_chain_le hb)) (h.inBounds_bucket key)
      (fun i hi => h.chain_lt hb hi) (h.chain _ hb)

/-- Touching a present key returns its entry and changes nothing. -/
theorem Refines.touchFn_of_getFn (h : hash.Refines m) {e : Slot}
    (hget : hash.getFn key = .ok (some e)) : hash.touchFn key = .ok (hash, some e) := by
  obtain ⟨cs, fl, hlayout, rfl⟩ := h
  rw [hlayout.getFn_eq] at hget
  have hfind := Except.ok.inj hget
  have hne : (hash.node (.bucket (hash.idx key))).key ≠ ihashUndef := by
    intro hundef
    rw [slots_eq_nil_iff.mpr hundef] at hfind
    simp at hfind
  rw [hlayout.touchFn_eq, if_neg hne]
  simp only [hfind]

/-- Touching an absent key without room returns `NULL` and changes nothing. -/
theorem Refines.touchFn_of_not_room (h : hash.Refines m) (hlookup : m.lookup key = none)
    (hroom : ¬ m.Room key) : hash.touchFn key = .ok (hash, none) := by
  rw [h.room_iff, not_or, not_not] at hroom
  obtain ⟨cs, fl, hlayout, rfl⟩ := h
  rw [lookup_toBuckets hlayout, Option.map_eq_none_iff] at hlookup
  rw [hlayout.touchFn_eq, if_neg hroom.1]
  simp only [hlookup]
  rw [appendNode, hroom.2]
  rfl

theorem Layout.append (h : hash.Layout cs fl) (hkey : key ≠ ihashUndef)
    (hmiss : (hash.slots cs (hash.idx key)).find? (fun s => (hash.node s).key = key) = none)
    (hne : (hash.node (.bucket (hash.idx key))).key ≠ ihashUndef)
    {new : Nat} (hhead : hash.chainHead = some new) :
    ∃ hash' cs' fl', hash.touchFn key = .ok (hash', some (.chain new)) ∧ SameShape hash' hash
      ∧ hash'.Layout cs' fl' ∧ hash'.getFn key = .ok (some (.chain new))
      ∧ hash'.toBuckets cs' fl'
        = (hash.toBuckets cs fl).insert key (hash'.node (.chain new)).data := by
  have hb := h.idx_lt key
  obtain ⟨rest, rfl, hrest⟩ := isChain_some (hhead ▸ h.free)
  have hnew := h.free_lt (i := new) (by simp)
  have hslots : hash.slots cs (hash.idx key)
      = .bucket (hash.idx key) :: (cs (hash.idx key)).map .chain := slots_of_ne hne
  have hnotin : ∀ b < hash.bucketsz, new ∉ cs b :=
    fun b hlt hmem => h.not_mem_free hlt hmem (by simp)
  -- the end of the chain: the bucket itself or the last pool node
  obtain ⟨e, hlast, he⟩ : ∃ e,
      ((cs (hash.idx key)).map Slot.chain).getLastD (Slot.bucket (hash.idx key)) = e
        ∧ (e = .bucket (hash.idx key) ∧ cs (hash.idx key) = []
          ∨ ∃ left last, e = .chain last ∧ cs (hash.idx key) = left ++ [last]) := by
    refine ⟨_, rfl, ?_⟩
    rcases List.eq_nil_or_concat (cs (hash.idx key)) with hnil | ⟨left, last, hsplit⟩
    · left
      simp [hnil]
    · right
      refine ⟨left, last, ?_, by simpa using hsplit⟩
      simp [hsplit]
  have hmem : e ∈ hash.slots cs (hash.idx key) := by
    rw [hslots]
    rcases he with ⟨rfl, -⟩ | ⟨left, last, rfl, hsplit⟩
    · simp
    · simp [hsplit]
  have hnechain : e ≠ .chain new := by
    rintro rfl
    rw [hslots] at hmem
    exact hnotin _ hb (by simpa using hmem)
  obtain ⟨hash', hok, hshape, hhead', hnode, hnodenew, hother⟩ :=
    appendNode_eq key hhead hnew hnechain
  have hentry : ∀ s, s ≠ .chain new → hash'.entry s = hash.entry s := by
    intro s hs
    by_cases hse : s = e
    · rw [hse, entry, entry, hnode]
    · rw [entry, entry, hother s hse hs]
  have hbkey : (hash'.node (.bucket (hash.idx key))).key
      = (hash.node (.bucket (hash.idx key))).key :=
    congrArg Prod.fst (hentry (.bucket (hash.idx key)) (by simp))
  have hlinknew : hash'.link new = none := by rw [link, hnodenew]
  have hlink : ∀ i, i ≠ new → e ≠ .chain i → hash'.link i = hash.link i := by
    intro i hi hei
    rw [link, link, hother (.chain i) (Ne.symm hei) (by simpa using hi)]
  have hchain : IsChain hash'.link (hash'.node (.bucket (hash.idx key))).next
      (cs (hash.idx key) ++ [new]) := by
    rcases he with ⟨rfl, hnil⟩ | ⟨left, last, rfl, hsplit⟩
    · rw [hnode, hnil]
      exact ⟨rfl, hlinknew⟩
    · have hold := h.chain _ hb
      rw [hsplit] at hold ⊢
      rw [hother (.bucket (hash.idx key)) (by simp) (by simp), List.append_assoc]
      refine hold.append_last (by rw [link, hnode]) hlinknew fun i hi => ?_
      refine hlink i ?_ ?_
      · rintro rfl
        exact hnotin _ hb (by simp [hsplit, hi])
      · intro heq
        have hdup := hold.nodup
        rw [Slot.chain.inj heq, List.nodup_append] at hdup
        exact hdup.2.2 i hi i (by simp) rfl
  have hslots' : (hash'.slots (Function.update cs (hash.idx key) (cs (hash.idx key) ++ [new]))
      (hash.idx key)).map hash'.entry
        = (hash.slots cs (hash.idx key)).map hash.entry ++ [(key, (hash'.node (.chain new)).data)] := by
    rw [slots, if_neg (by rw [hbkey]; exact hne), Function.update_self, hslots]
    have hsame : ((cs (hash.idx key)).map .chain).map hash'.entry
        = ((cs (hash.idx key)).map .chain).map hash.entry := by
      refine List.map_congr_left fun s hs => hentry s ?_
      rintro rfl
      exact hnotin _ hb (by simpa using hs)
    have hlastentry : hash'.entry (.chain new) = (key, (hash'.node (.chain new)).data) := by
      rw [entry, hnodenew]
    rw [List.map_append, List.map_cons, List.map_append, hsame, hentry _ (by simp), List.map_singleton,
      List.map_singleton, hlastentry, List.map_cons, List.cons_append]
  have hfresh : ∀ p ∈ (hash.slots cs (hash.idx key)).map hash.entry, p.1 ≠ key := by
    intro p hp
    obtain ⟨s, hs, rfl⟩ := List.mem_map.mp hp
    simpa [entry] using List.find?_eq_none.mp hmiss s hs
  obtain ⟨hlayout', hbuckets⟩ := h.update hshape hb (cs (hash.idx key) ++ [new]) rest _
    (by
      intro b hlt hneb
      have hfar : ∀ s, s = .bucket b ∨ s ∈ (cs b).map .chain → s ≠ e ∧ s ≠ .chain new := by
        rintro s (rfl | hs)
        · refine ⟨?_, by simp⟩
          rintro rfl
          rcases he with ⟨heq, -⟩ | ⟨left, last, heq, -⟩
          · exact hneb (Slot.bucket.inj heq)
          · cases heq
        · obtain ⟨i, hi, rfl⟩ := List.mem_map.mp hs
          refine ⟨?_, ?_⟩
          · rintro rfl
            rcases he with ⟨heq, -⟩ | ⟨left, last, heq, hsplit⟩
            · cases heq
            · cases heq
              exact hneb (h.owner_unique hlt hb hi (by simp [hsplit]))
          · intro heq
            exact hnotin b hlt (Slot.chain.inj heq ▸ hi)
      refine ⟨?_, fun i hi => ?_⟩
      · have hs := hfar (.bucket b) (Or.inl rfl)
        exact hother _ hs.1 hs.2
      · have hs := hfar (.chain i) (Or.inr (List.mem_map_of_mem hi))
        exact hother _ hs.1 hs.2)
    hchain
    (by
      rw [hhead']
      refine hrest.frame fun i hi => hlink i ?_ ?_
      · rintro rfl
        have hdup := h.free.nodup
        exact (List.nodup_cons.mp hdup).1 hi
      · rintro rfl
        rw [hslots] at hmem
        exact h.not_mem_free hb (i := i) (by simpa using hmem) (by simp [hi]))
    (by rw [hbkey]; exact fun hundef => absurd hundef hne)
    (by simp [List.append_assoc])
    hslots'
    (by
      intro p hp
      rcases List.mem_append.mp hp with hold | hlastp
      · obtain ⟨s, hs, rfl⟩ := List.mem_map.mp hold
        exact h.keyed _ hb s hs
      · rw [List.mem_singleton.mp hlastp]
        exact ⟨hkey, rfl⟩)
    (by
      rw [List.map_append, List.nodup_append]
      refine ⟨?_, by simp, ?_⟩
      · rw [List.map_map]
        exact h.distinct _ hb
      · intro a ha a' ha'
        obtain ⟨p, hp, rfl⟩ := List.mem_map.mp ha
        have heq : a' = key := by simpa using ha'
        rw [heq]
        exact hfresh p hp)
  refine ⟨hash', _, _, ?_, hshape, hlayout', ?_, ?_⟩
  · rw [h.touchFn_eq, if_neg hne]
    simp only [hmiss, hlast, hok]
  · refine hlayout'.getFn_of_mem ?_ (by rw [hnodenew])
    rw [hshape.idx, slots, if_neg (by rw [hbkey]; exact hne), Function.update_self]
    simp
  · rw [hbuckets, BucketMap.insert, bucket_toBuckets h]
    have hfilled : (hash.slots cs (hash.idx key)).map hash.entry ≠ [] := by simp [hslots]
    rw [if_neg hfilled]
    rfl

theorem Layout.fill (h : hash.Layout cs fl) (hkey : key ≠ ihashUndef)
    (hempty : (hash.node (.bucket (hash.idx key))).key = ihashUndef) :
    ∃ hash', hash.touchFn key = .ok (hash', some (.bucket (hash.idx key))) ∧ SameShape hash' hash
      ∧ hash'.Layout cs fl ∧ hash'.getFn key = .ok (some (.bucket (hash.idx key)))
      ∧ hash'.toBuckets cs fl
        = (hash.toBuckets cs fl).insert key (hash'.node (.bucket (hash.idx key))).data := by
  have hb := h.idx_lt key
  have hnil := h.empty _ hb hempty
  refine ⟨(hash.setKey (.bucket (hash.idx key)) key).setNext (.bucket (hash.idx key)) none, ?_⟩
  generalize hhash' : (hash.setKey (.bucket (hash.idx key)) key).setNext
    (.bucket (hash.idx key)) none = hash'
  have hnode : hash'.node (.bucket (hash.idx key))
      = { hash.node (.bucket (hash.idx key)) with key := key, next := none } := by
    rw [← hhash', setNext, setKey, node_modify_self, node_modify_self]
  have hother : ∀ s, s ≠ .bucket (hash.idx key) → hash'.node s = hash.node s := by
    intro s hs
    rw [← hhash', setNext, setKey, node_modify_of_ne _ _ _ hs, node_modify_of_ne _ _ _ hs]
  have hshape : SameShape hash' hash := by
    rw [← hhash']
    exact (sameShape_modify _ _ _).trans (sameShape_modify _ _ _)
  have hlink : hash'.link = hash.link := by
    funext i
    rw [link, link, hother _ (by simp)]
  have hslots' : hash'.slots cs (hash.idx key) = [.bucket (hash.idx key)] := by
    rw [slots, hnode, if_neg hkey, hnil]
    rfl
  have hupdate := h.update hshape hb [] fl
    [(key, (hash'.node (.bucket (hash.idx key))).data)]
    (fun b _ hne => ⟨hother _ (by simpa using hne), fun i _ => hother _ (by simp)⟩)
    (by rw [hnode]; rfl)
    (by
      have hhead : hash'.chainHead = hash.chainHead := by
        rw [← hhash', setNext, setKey, chainHead_modify, chainHead_modify]
      rw [hlink, hhead]
      exact h.free)
    (fun _ => rfl)
    (by rw [hnil])
    (by
      rw [← hnil, Function.update_eq_self, hslots', List.map_singleton, entry, hnode])
    (by
      intro p hp
      rw [List.mem_singleton.mp hp]
      exact ⟨hkey, rfl⟩)
    (by simp)
  rw [← hnil, Function.update_eq_self] at hupdate
  obtain ⟨hlayout', hbuckets⟩ := hupdate
  refine ⟨?_, hshape, hlayout', ?_, ?_⟩
  · rw [h.touchFn_eq, if_pos hempty, hhash']
  · refine hlayout'.getFn_of_mem ?_ (by rw [hnode])
    rw [hshape.idx, hslots']
    simp
  · have hbucket : (hash.toBuckets cs fl).bucket key = [] := by
      rw [bucket_toBuckets h, slots_eq_nil_iff.mpr hempty, List.map_nil]
    rw [hbuckets, BucketMap.insert, hbucket, if_pos rfl]
    rfl

/-- **Insertion.** Touching an absent key with room stores it in a new entry. -/
theorem Refines.touchFn_insert (h : hash.Refines m) (hkey : key ≠ ihashUndef)
    (hlookup : m.lookup key = none) (hroom : m.Room key) :
    ∃ hash' e, hash.touchFn key = .ok (hash', some e) ∧ SameShape hash' hash
      ∧ hash'.getFn key = .ok (some e) ∧ hash'.Refines (m.insert key (hash'.node e).data) := by
  have hmiss := hlookup
  rw [h.room_iff] at hroom
  obtain ⟨cs, fl, hlayout, rfl⟩ := h
  rw [lookup_toBuckets hlayout, Option.map_eq_none_iff] at hmiss
  by_cases hempty : (hash.node (.bucket (hash.idx key))).key = ihashUndef
  · obtain ⟨hash', htouch, hshape, hlayout', hget, hbuckets⟩ := hlayout.fill hkey hempty
    exact ⟨hash', _, htouch, hshape, hget, cs, fl, hlayout', hbuckets.symm⟩
  · obtain ⟨new, hhead⟩ := Option.ne_none_iff_exists'.mp (hroom.resolve_left hempty)
    obtain ⟨hash', cs', fl', htouch, hshape, hlayout', hget, hbuckets⟩ :=
      hlayout.append hkey hmiss hempty hhead
    exact ⟨hash', _, htouch, hshape, hget, cs', fl', hlayout', hbuckets.symm⟩

end Touch

/-! ### Erasing -/

section Erase

variable {hash : Ihash V} {cs : Nat → List Nat} {fl : List Nat} {m : BucketMap Int64 V} {key : Int64}

/-- The update rule for a step that takes one key out of its bucket. -/
theorem Layout.remove {hash' : Ihash V} (h : hash.Layout cs fl) (hshape : SameShape hash' hash)
    (l fl' : List Nat)
    (hframe : ∀ b < hash.bucketsz, b ≠ hash.idx key →
      hash'.node (.bucket b) = hash.node (.bucket b)
        ∧ ∀ i ∈ cs b, hash'.node (.chain i) = hash.node (.chain i))
    (hchain : IsChain hash'.link (hash'.node (.bucket (hash.idx key))).next l)
    (hfree : IsChain hash'.link hash'.chainHead fl')
    (hempty : (hash'.node (.bucket (hash.idx key))).key = ihashUndef → l = [])
    (hpool : (l ++ fl').Perm (cs (hash.idx key) ++ fl))
    (hes : (hash'.slots (Function.update cs (hash.idx key) l) (hash.idx key)).map hash'.entry
      = ((hash.slots cs (hash.idx key)).map hash.entry).filter fun p => p.1 ≠ key)
    (hcount : fl'.length
      = if 2 ≤ (hash.slots cs (hash.idx key)).length then fl.length + 1 else fl.length) :
    hash'.Refines ((hash.toBuckets cs fl).erase key) := by
  have hb := h.idx_lt key
  obtain ⟨hlayout', hbuckets⟩ := h.update hshape hb l fl' _ hframe hchain hfree hempty hpool hes
    (by
      intro p hp
      obtain ⟨s, hs, rfl⟩ := List.mem_map.mp (List.mem_filter.mp hp).1
      exact h.keyed _ hb s hs)
    (by
      refine List.Nodup.sublist (List.filter_sublist.map _) ?_
      rw [List.map_map]
      exact h.distinct _ hb)
  refine ⟨_, fl', hlayout', ?_⟩
  rw [hbuckets, BucketMap.erase, bucket_toBuckets h, List.length_map, hcount]
  rfl

theorem freeNode_eq (hash : Ihash V) (cur : Nat) :
    SameShape (hash.freeNode cur) hash ∧ (hash.freeNode cur).chainHead = some cur
      ∧ (hash.freeNode cur).link cur = hash.chainHead
      ∧ ∀ s, s ≠ .chain cur → (hash.freeNode cur).node s = hash.node s := by
  refine ⟨⟨by simp [freeNode, setNext, setKey], by simp [freeNode, setNext, setKey],
    by simp [freeNode, setNext, setKey]⟩, rfl, ?_, ?_⟩
  · have hnode : (hash.freeNode cur).node (.chain cur)
        = ((hash.setKey (.chain cur) ihashUndef).setNext (.chain cur)
            (hash.setKey (.chain cur) ihashUndef).chainHead).node (.chain cur) := rfl
    rw [link, hnode, setNext, node_modify_self, setKey, chainHead_modify]
  · intro s hs
    have hnode : (hash.freeNode cur).node s
        = ((hash.setKey (.chain cur) ihashUndef).setNext (.chain cur)
            (hash.setKey (.chain cur) ihashUndef).chainHead).node s := by cases s <;> rfl
    rw [hnode, setNext, node_modify_of_ne _ _ _ hs, setKey, node_modify_of_ne _ _ _ hs]

/-- The key sits in the bucket and nothing is chained behind it. -/
theorem Layout.eraseBucket_alone (h : hash.Layout cs fl) (hkey : key ≠ ihashUndef)
    (hhit : (hash.node (.bucket (hash.idx key))).key = key)
    (hnext : (hash.node (.bucket (hash.idx key))).next = none) :
    ∃ hash', hash.eraseBucket (.bucket (hash.idx key)) = .ok hash' ∧ SameShape hash' hash
      ∧ hash'.Refines ((hash.toBuckets cs fl).erase key) := by
  have hb := h.idx_lt key
  have hnil : cs (hash.idx key) = [] := by
    have hchain := h.chain _ hb
    rw [hnext] at hchain
    exact isChain_none.mp hchain
  refine ⟨(hash.setKey (.bucket (hash.idx key)) ihashUndef).setNext (.bucket (hash.idx key)) none,
    ?_, ?_⟩
  · rw [eraseBucket, load_eq (h.inBounds_bucket key)]
    simp only [bind, Except.bind, hnext]
    rfl
  generalize hhash' : (hash.setKey (.bucket (hash.idx key)) ihashUndef).setNext
    (.bucket (hash.idx key)) none = hash'
  have hnode : hash'.node (.bucket (hash.idx key))
      = { hash.node (.bucket (hash.idx key)) with key := ihashUndef, next := none } := by
    rw [← hhash', setNext, setKey, node_modify_self, node_modify_self]
  have hother : ∀ s, s ≠ .bucket (hash.idx key) → hash'.node s = hash.node s := by
    intro s hs
    rw [← hhash', setNext, setKey, node_modify_of_ne _ _ _ hs, node_modify_of_ne _ _ _ hs]
  have hlink : hash'.link = hash.link := by
    funext i
    rw [link, link, hother _ (by simp)]
  have hshape : SameShape hash' hash := by
    rw [← hhash']
    exact (sameShape_modify _ _ _).trans (sameShape_modify _ _ _)
  have hslots : hash.slots cs (hash.idx key) = [.bucket (hash.idx key)] := by
    rw [slots_of_ne (by rw [hhit]; exact hkey), hnil]
    rfl
  refine ⟨hshape, h.remove hshape [] fl ?_ ?_ ?_ (fun _ => rfl) (by rw [hnil]) ?_ ?_⟩
  · exact fun b _ hne => ⟨hother _ (by simpa using hne), fun i _ => hother _ (by simp)⟩
  · rw [hnode]
    rfl
  · have hhead : hash'.chainHead = hash.chainHead := by
      rw [← hhash', setNext, setKey, chainHead_modify, chainHead_modify]
    rw [hlink, hhead]
    exact h.free
  · rw [slots_eq_nil_iff.mpr (by rw [hnode]), hslots]
    simp [entry, hhit]
  · rw [hslots]
    rfl

/-- The key sits in the bucket: the first pool node moves into the bucket. -/
theorem Layout.eraseBucket_shift (h : hash.Layout cs fl) (hkey : key ≠ ihashUndef)
    (hhit : (hash.node (.bucket (hash.idx key))).key = key) {first : Nat}
    (hnext : (hash.node (.bucket (hash.idx key))).next = some first) :
    ∃ hash', hash.eraseBucket (.bucket (hash.idx key)) = .ok hash' ∧ SameShape hash' hash
      ∧ hash'.Refines ((hash.toBuckets cs fl).erase key) := by
  have hb := h.idx_lt key
  have hchain := h.chain _ hb
  rw [hnext] at hchain
  obtain ⟨rest, hcs, hrest⟩ := isChain_some hchain
  have hfirst := h.chain_lt hb (i := first) (by simp [hcs])
  have hslots : hash.slots cs (hash.idx key)
      = .bucket (hash.idx key) :: .chain first :: rest.map .chain := by
    rw [slots_of_ne (by rw [hhit]; exact hkey), hcs]
    rfl
  refine ⟨(hash.modify (.bucket (hash.idx key)) fun _ => hash.node (.chain first)).freeNode first,
    ?_, ?_⟩
  · rw [eraseBucket, load_eq (h.inBounds_bucket key)]
    simp only [bind, Except.bind, hnext]
    rw [load_eq (e := .chain first) hfirst]
    rfl
  obtain ⟨hshape₁, hhead, hlinkfirst, hother₁⟩ := freeNode_eq
    (hash.modify (.bucket (hash.idx key)) fun _ => hash.node (.chain first)) first
  generalize (hash.modify (.bucket (hash.idx key)) fun _ => hash.node (.chain first)).freeNode first
    = hash' at *
  have hshape : SameShape hash' hash := hshape₁.trans (sameShape_modify _ _ _)
  have hnode : hash'.node (.bucket (hash.idx key)) = hash.node (.chain first) := by
    rw [hother₁ _ (by simp), node_modify_self]
  have hother : ∀ s, s ≠ .bucket (hash.idx key) → s ≠ .chain first → hash'.node s = hash.node s := by
    intro s hs hsfirst
    rw [hother₁ s hsfirst, node_modify_of_ne _ _ _ hs]
  have hlink : ∀ i, i ≠ first → hash'.link i = hash.link i := by
    intro i hi
    rw [link, link, hother _ (by simp) (by simpa using hi)]
  have hnotrest : first ∉ rest := by
    have hdup := (h.chain _ hb).nodup
    rw [hcs] at hdup
    exact (List.nodup_cons.mp hdup).1
  have hfirstkey := (h.keyed _ hb (.chain first) (by simp [hslots])).1
  refine ⟨hshape, h.remove hshape rest (first :: fl) ?_ ?_ ?_ ?_ ?_ ?_ ?_⟩
  · intro b hlt hne
    refine ⟨hother _ (by simpa using hne) (by simp), fun i hi => hother _ (by simp) ?_⟩
    intro heq
    exact hne (h.owner_unique hlt hb hi (by simp [hcs, Slot.chain.inj heq]))
  · rw [hnode]
    exact hrest.frame fun i hi => hlink i (ne_of_mem_of_not_mem hi hnotrest)
  · rw [hhead]
    refine ⟨rfl, ?_⟩
    rw [hlinkfirst, chainHead_modify]
    refine h.free.frame fun i hi => hlink i ?_
    rintro rfl
    exact h.not_mem_free hb (by simp [hcs]) hi
  · rw [hnode]
    exact fun hundef => absurd hundef hfirstkey
  · rw [hcs, List.cons_append]
    exact List.perm_middle
  · have hnodup := h.distinct _ hb
    rw [hslots] at hnodup ⊢
    have hfilter := BucketMap.filter_key_ne (l := [])
      (r := (Slot.chain first :: rest.map .chain).map hash.entry)
      (p := hash.entry (.bucket (hash.idx key))) hhit
      (by rw [List.nil_append, ← List.map_cons, List.map_map]; exact hnodup)
    rw [List.map_cons]
    simp only [List.nil_append] at hfilter
    rw [hfilter, slots_of_ne (by rw [hnode]; exact hfirstkey), Function.update_self]
    simp only [List.map_cons, List.map_map]
    refine congrArg₂ _ (by rw [entry, entry, hnode]) (List.map_congr_left fun i hi => ?_)
    have hne : i ≠ first := ne_of_mem_of_not_mem hi hnotrest
    simp only [Function.comp_apply, entry]
    rw [hother _ (by simp) (by simpa using hne)]
  · rw [hslots]
    simp

/-- The key sits in the chain: its predecessor takes over its link. -/
theorem Layout.eraseChain (h : hash.Layout cs fl) {left right : List Nat} {cur : Nat}
    (hne : (hash.node (.bucket (hash.idx key))).key ≠ ihashUndef)
    (hcs : cs (hash.idx key) = left ++ cur :: right) (hhit : (hash.node (.chain cur)).key = key) :
    SameShape ((hash.setNext ((left.map .chain).getLastD (.bucket (hash.idx key)))
        (hash.link cur)).freeNode cur) hash
      ∧ ((hash.setNext ((left.map .chain).getLastD (.bucket (hash.idx key)))
        (hash.link cur)).freeNode cur).Refines ((hash.toBuckets cs fl).erase key) := by
  have hb := h.idx_lt key
  have hchain := h.chain _ hb
  have hdup := hchain.nodup
  rw [hcs] at hchain hdup
  have hcur := List.nodup_cons.mp (List.nodup_middle.mp hdup)
  have hslots : hash.slots cs (hash.idx key)
      = .bucket (hash.idx key) :: (left ++ cur :: right).map .chain := by
    rw [slots_of_ne hne, hcs]
  -- the predecessor is the bucket itself or the last node of `left`
  obtain ⟨prev, hprev, hcase⟩ : ∃ prev,
      (left.map Slot.chain).getLastD (Slot.bucket (hash.idx key)) = prev
        ∧ (prev = .bucket (hash.idx key) ∧ left = []
          ∨ ∃ init last, prev = .chain last ∧ left = init ++ [last]) := by
    refine ⟨_, rfl, ?_⟩
    rcases List.eq_nil_or_concat left with rfl | ⟨init, last, hsplit⟩
    · exact Or.inl ⟨rfl, rfl⟩
    · exact Or.inr ⟨init, last, by simp [hsplit], by simpa using hsplit⟩
  rw [hprev]
  have hprevcur : prev ≠ .chain cur := by
    rcases hcase with ⟨rfl, -⟩ | ⟨init, last, rfl, hleft⟩
    · simp
    · intro heq
      refine hcur.1 ?_
      rw [← Slot.chain.inj heq, hleft]
      simp
  obtain ⟨hshape₁, hhead, hlinkcur, hother₁⟩ :=
    freeNode_eq (hash.setNext prev (hash.link cur)) cur
  generalize (hash.setNext prev (hash.link cur)).freeNode cur = hash' at *
  have hshape : SameShape hash' hash := hshape₁.trans (sameShape_modify _ _ _)
  have hnode : hash'.node prev = { hash.node prev with next := hash.link cur } := by
    rw [hother₁ _ hprevcur, setNext, node_modify_self]
  have hother : ∀ s, s ≠ prev → s ≠ .chain cur → hash'.node s = hash.node s := by
    intro s hs hscur
    rw [hother₁ s hscur, setNext, node_modify_of_ne _ _ _ hs]
  have hentry : ∀ s, s ≠ .chain cur → hash'.entry s = hash.entry s := by
    intro s hs
    by_cases hsp : s = prev
    · rw [hsp, entry, entry, hnode]
    · rw [entry, entry, hother s hsp hs]
  have hlink : ∀ i, i ≠ cur → prev ≠ .chain i → hash'.link i = hash.link i := by
    intro i hi hpi
    rw [link, link, hother _ (Ne.symm hpi) (by simpa using hi)]
  have hbkey : (hash'.node (.bucket (hash.idx key))).key
      = (hash.node (.bucket (hash.idx key))).key :=
    congrArg Prod.fst (hentry (.bucket (hash.idx key)) (by simp))
  have hprevchain : ∀ i, prev = .chain i → i ∈ cs (hash.idx key) := by
    rintro i rfl
    rcases hcase with ⟨hcontra, -⟩ | ⟨init, last, heq, hleft⟩
    · cases hcontra
    · cases heq
      simp [hcs, hleft]
  refine ⟨hshape, h.remove hshape (left ++ right) (cur :: fl) ?_ ?_ ?_ ?_ ?_ ?_ ?_⟩
  · intro b hlt hneb
    refine ⟨hother _ ?_ (by simp), fun i hi => hother _ ?_ ?_⟩
    · rintro rfl
      rcases hcase with ⟨heq, -⟩ | ⟨init, last, heq, -⟩
      · exact hneb (Slot.bucket.inj heq)
      · cases heq
    · intro heq
      exact hneb (h.owner_unique hlt hb hi (hprevchain i heq.symm))
    · intro heq
      exact hneb (h.owner_unique hlt hb hi (by simp [hcs, Slot.chain.inj heq]))
  · rcases hcase with ⟨rfl, rfl⟩ | ⟨init, last, rfl, rfl⟩
    · rw [hnode]
      exact hchain.2.frame fun i hi => hlink i (ne_of_mem_of_not_mem hi hcur.1) (by simp)
    · rw [hother _ (by simp) (by simp), List.append_assoc]
      refine @IsChain.bypass _ _ _ _ _ _ cur (by simpa using hchain) (by rw [link, hnode]) ?_
      intro i hi
      refine hlink i ?_ ?_
      · rintro rfl
        refine hcur.1 ?_
        simp only [List.append_assoc, List.mem_append]
        rcases List.mem_append.mp hi with hleft | hright
        · exact Or.inl hleft
        · exact Or.inr (Or.inr hright)
      · intro heq
        have hlast := Slot.chain.inj heq
        have hnodup := hcur.2
        rw [List.append_assoc] at hnodup
        have hmid := List.nodup_cons.mp (List.nodup_middle.mp hnodup)
        exact hmid.1 (hlast ▸ hi)
  · rw [hhead]
    refine ⟨rfl, ?_⟩
    rw [hlinkcur, setNext, chainHead_modify]
    refine h.free.frame fun i hi => hlink i ?_ ?_
    · rintro rfl
      exact h.not_mem_free hb (by simp [hcs]) hi
    · intro heq
      exact h.not_mem_free hb (hprevchain i heq) hi
  · rw [hbkey]
    exact fun hundef => absurd hundef hne
  · rw [hcs, List.append_assoc, List.append_assoc]
    exact List.Perm.append_left _ List.perm_middle
  · have hnodup := h.distinct _ hb
    rw [hslots] at hnodup ⊢
    have hsplit : (Slot.bucket (hash.idx key) :: (left ++ cur :: right).map .chain).map hash.entry
        = (Slot.bucket (hash.idx key) :: left.map .chain).map hash.entry
          ++ hash.entry (.chain cur) :: (right.map .chain).map hash.entry := by simp
    have hkeys : ((Slot.bucket (hash.idx key) :: (left ++ cur :: right).map .chain).map
        hash.entry).map Prod.fst
          = (Slot.bucket (hash.idx key) :: (left ++ cur :: right).map .chain).map
            fun e => (hash.node e).key := by
      rw [List.map_map]
      rfl
    rw [← hkeys, hsplit] at hnodup
    rw [hsplit, BucketMap.filter_key_ne hhit hnodup, slots_of_ne (by rw [hbkey]; exact hne),
      Function.update_self, List.map_cons, hentry _ (by simp), List.map_append, List.map_append,
      List.map_cons, List.cons_append]
    have hsame : ∀ l : List Nat, cur ∉ l →
        (l.map Slot.chain).map hash'.entry = (l.map Slot.chain).map hash.entry := by
      intro l hl
      refine List.map_congr_left fun s hs => hentry s ?_
      rintro rfl
      exact hl (by simpa using hs)
    rw [hsame left fun hmem => hcur.1 (by simp [hmem]),
      hsame right fun hmem => hcur.1 (by simp [hmem])]
  · rw [hslots]
    simp

/-- Erasing an absent key finds nothing and changes nothing. -/
theorem Refines.eraseFn_of_absent (h : hash.Refines m) (hlookup : m.lookup key = none) :
    hash.eraseFn key = .ok (hash, false) := by
  obtain ⟨cs, fl, hlayout, rfl⟩ := h
  have hb := hlayout.idx_lt key
  rw [lookup_toBuckets hlayout, Option.map_eq_none_iff] at hlookup
  rw [eraseFn, load_eq (hlayout.inBounds_bucket key)]
  simp only [bind, Except.bind]
  split
  · rfl
  · rename_i hne
    rw [slots_of_ne hne] at hlookup
    have hmiss : ∀ s, s = .bucket (hash.idx key) ∨ s ∈ (cs (hash.idx key)).map .chain →
        (hash.node s).key ≠ key := by
      intro s hs
      simpa using List.find?_eq_none.mp hlookup s (List.mem_cons.mpr hs)
    rw [if_neg (Ne.symm (hmiss _ (Or.inl rfl)))]
    rcases eraseLoop_eq key (hlayout.length_chain_le hb) (fun i hi => hlayout.chain_lt hb hi)
      (hlayout.chain _ hb) rfl with ⟨-, heq⟩ | ⟨left, cur, right, hsplit, hhit, -⟩
    · exact heq
    · exact absurd hhit (hmiss _ (Or.inr (by simp [hsplit])))

/-- **Erasure.** Erasing a present key reports it and removes only that key. -/
theorem Refines.eraseFn_of_present (h : hash.Refines m) (hkey : key ≠ ihashUndef)
    (hlookup : m.lookup key ≠ none) :
    ∃ hash', hash.eraseFn key = .ok (hash', true) ∧ SameShape hash' hash
      ∧ hash'.Refines (m.erase key) := by
  obtain ⟨cs, fl, hlayout, rfl⟩ := h
  have hb := hlayout.idx_lt key
  obtain ⟨v, hv⟩ := Option.ne_none_iff_exists'.mp hlookup
  obtain ⟨e, -, -, hhit, hmem⟩ := lookup_toBuckets_eq_some hlayout hv
  have hne : (hash.node (.bucket (hash.idx key))).key ≠ ihashUndef := by
    intro hundef
    rw [slots_eq_nil_iff.mpr hundef] at hmem
    simp at hmem
  rw [eraseFn, load_eq (hlayout.inBounds_bucket key)]
  simp only [bind, Except.bind, if_neg hne]
  by_cases hbucket : key = (hash.node (.bucket (hash.idx key))).key
  · rw [if_pos hbucket]
    obtain ⟨hash', heq, hshape, hrefines⟩ :
        ∃ hash', hash.eraseBucket (.bucket (hash.idx key)) = .ok hash' ∧ SameShape hash' hash
          ∧ hash'.Refines ((hash.toBuckets cs fl).erase key) := by
      cases hnext : (hash.node (.bucket (hash.idx key))).next with
      | none => exact hlayout.eraseBucket_alone hkey hbucket.symm hnext
      | some first => exact hlayout.eraseBucket_shift hkey hbucket.symm hnext
    refine ⟨hash', ?_, hshape, hrefines⟩
    rw [heq]
    rfl
  · rw [if_neg hbucket]
    rcases eraseLoop_eq key (hlayout.length_chain_le hb) (fun i hi => hlayout.chain_lt hb hi)
      (hlayout.chain _ hb) rfl with ⟨hmiss, -⟩ | ⟨left, cur, right, hsplit, hcur, heq⟩
    · rw [slots_of_ne hne] at hmem
      rcases List.mem_cons.mp hmem with rfl | hchain
      · exact absurd hhit.symm hbucket
      · obtain ⟨i, hi, rfl⟩ := List.mem_map.mp hchain
        exact absurd hhit (hmiss i hi)
    · obtain ⟨hshape, hrefines⟩ := hlayout.eraseChain hne hsplit hcur
      exact ⟨_, heq, hshape, hrefines⟩

end Erase

/-! ### Clearing -/

/-- The map without entries. -/
def emptyBuckets (hash : Ihash V) : BucketMap Int64 V where
  size := hash.bucketsz
  index := hash.idx
  entries _ := []
  free := hash.chainsz

theorem refines_clear (hash : Ihash V) (hpos : 0 < hash.bucketsz) (hashFn : Option HashFn) :
    (hash.clear hashFn).Refines (hash.clear hashFn).emptyBuckets := by
  have hslots : ∀ b, (hash.clear hashFn).slots (fun _ => []) b = [] :=
    fun b => slots_eq_nil_iff.mpr rfl
  refine ⟨fun _ => [], List.range hash.chainsz, ⟨hpos, fun _ _ => rfl, ?_, fun _ _ _ => rfl, ?_, ?_, ?_⟩,
    ?_⟩
  · refine isChain_range ?_ ?_
    · intro i hi
      simp only [link, node, clear]
      rw [if_neg (by omega)]
    · intro i hi
      simp only [link, node, clear]
      rw [if_pos hi]
  · have hnil : ∀ l : List Nat, l.flatMap (fun _ => ([] : List Nat)) = [] := by
      intro l
      simp
    rw [hnil]
    exact List.Perm.refl _
  · intro b _ e he
    rw [hslots] at he
    simp at he
  · intro b _
    rw [hslots]
    simp
  · simp only [emptyBuckets, toBuckets, hslots, List.map_nil, ite_self, List.length_range]
    rfl

theorem lookup_emptyBuckets (hash : Ihash V) (key : Int64) :
    hash.emptyBuckets.lookup key = none := rfl

end Scroller.Ihash
