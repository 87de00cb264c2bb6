import Scroller.Proof.IhashRun

/-!
# Iteration over the hash table

From a bucket the iterator walks the chain behind it and then moves on to the next occupied bucket.
What is left to visit at a bucket is therefore the concatenation of the entries of the buckets from
there on, and an empty bucket adds nothing to it.
-/

namespace Scroller.Ihash

open IndexChain

variable {V : Type} {hash : Ihash V} {cs : Nat → List Nat} {fl : List Nat}

/-- The entries of `n` buckets from `idx` on. -/
def slotsFrom (hash : Ihash V) (cs : Nat → List Nat) (idx n : Nat) : List Slot :=
  (List.range' idx n).flatMap (hash.slots cs)

theorem slotsFrom_succ (idx n : Nat) :
    hash.slotsFrom cs idx (n + 1) = hash.slots cs idx ++ hash.slotsFrom cs (idx + 1) n := by
  rw [slotsFrom, List.range'_succ, List.flatMap_cons, slotsFrom]

/-- The search for an occupied bucket stays inside the table and skips nothing but empty buckets. -/
theorem nextOccupiedLoop_spec (hash : Ihash V) (cs : Nat → List Nat) (n idx : Nat) :
    ∃ skipped left, n = skipped + left ∧ hash.nextOccupiedLoop n idx = idx + skipped
      ∧ hash.slotsFrom cs idx n = hash.slotsFrom cs (idx + skipped) left
      ∧ (0 < left → (hash.node (.bucket (idx + skipped))).key ≠ ihashUndef) := by
  induction n generalizing idx with
  | zero => exact ⟨0, 0, rfl, rfl, rfl, fun hlt => absurd hlt (Nat.lt_irrefl 0)⟩
  | succ n ih =>
      by_cases hkey : (hash.buckets idx).key = ihashUndef
      · obtain ⟨skipped, left, hn, hloop, hslots, hoccupied⟩ := ih (idx + 1)
        have hnext : idx + 1 + skipped = idx + (skipped + 1) := by omega
        rw [hnext] at hloop hslots hoccupied
        refine ⟨skipped + 1, left, by omega, ?_, ?_, hoccupied⟩
        · rw [nextOccupiedLoop, if_neg (not_not.mpr hkey), hloop]
        · rw [slotsFrom_succ, slots_eq_nil_iff.mpr hkey, List.nil_append, hslots]
      · refine ⟨0, n + 1, by omega, ?_, rfl, fun _ => hkey⟩
        rw [nextOccupiedLoop, if_pos hkey]
        rfl

theorem not_isValid_of_eq {i : Iterator} (h : i.bucketIdx = hash.bucketsz) :
    hash.isValid i = false := by
  rw [isValid, h]
  simp

theorem isValid_of_lt {i : Iterator} (h : i.bucketIdx < hash.bucketsz) : hash.isValid i = true := by
  rw [isValid]
  simp [h.ne]

theorem foreach_of_not_isValid {i : Iterator} (h : hash.isValid i = false) (fuel : Nat) :
    hash.foreach fuel i = .ok [] := by
  unfold foreach
  rw [h]
  rfl

/-- A loop that ended: it was at its end, or it visited an entry and went on behind it. -/
theorem foreach_eq_ok {fuel : Nat} {i : Iterator} {entries : List Slot}
    (h : hash.foreach fuel i = .ok entries) :
    (hash.isValid i = false ∧ entries = [])
      ∨ ∃ fuel' e i' rest, fuel = fuel' + 1 ∧ hash.isValid i = true ∧ i.datum = some e
        ∧ hash.load e = .ok (hash.node e) ∧ hash.next i = .ok i' ∧ hash.foreach fuel' i' = .ok rest
        ∧ entries = e :: rest := by
  by_cases hvalid : hash.isValid i = true
  · right
    obtain ⟨b, datum⟩ := i
    unfold foreach at h
    rw [if_pos hvalid] at h
    cases fuel with
    | zero => cases h
    | succ fuel =>
        cases datum with
        | none => cases h
        | some e =>
            obtain ⟨i', hnext, h⟩ := bind_eq_ok.mp h
            obtain ⟨rest, hrest, h⟩ := bind_eq_ok.mp h
            cases h
            obtain ⟨n, hload, -⟩ := bind_eq_ok.mp hnext
            have hn : n = hash.node e := by
              cases e with
              | bucket idx =>
                  rw [load] at hload
                  split at hload
                  · cases hload
                    rfl
                  · cases hload
              | chain idx =>
                  rw [load] at hload
                  split at hload
                  · cases hload
                    rfl
                  · cases hload
            exact ⟨fuel, e, i', rest, rfl, hvalid, rfl, hn ▸ hload, hnext, hrest, rfl⟩
  · left
    have hinvalid : hash.isValid i = false := by simpa using hvalid
    rw [foreach_of_not_isValid hinvalid] at h
    cases h
    exact ⟨hinvalid, rfl⟩

theorem foreach_succ {b : Nat} {e : Slot} (hb : b < hash.bucketsz) (he : hash.InBounds e)
    (fuel : Nat) {i : Iterator} {rest : List Slot} (hrest : hash.foreach fuel i = .ok rest)
    (hnext : i = match (hash.node e).next with
      | none => hash.iteratorAt (hash.nextOccupiedBucket (b + 1))
      | some next => { bucketIdx := b, datum := some (.chain next) }) :
    hash.foreach (fuel + 1) { bucketIdx := b, datum := some e } = .ok (e :: rest) := by
  have hvalid : hash.isValid { bucketIdx := b, datum := some e } = true := isValid_of_lt hb
  have hstep : hash.next { bucketIdx := b, datum := some e } = .ok i := by
    simp only [next, load_eq he, bind, Except.bind]
    rw [hnext]
    cases (hash.node e).next <;> rfl
  simp only [foreach, hvalid, hstep, bind, Except.bind, hrest]
  rfl

/-- From an entry the loop visits the rest of its chain, then what it visits behind the bucket. -/
theorem foreach_chain {b : Nat} {rest : List Slot} {n : Nat} (hb : b < hash.bucketsz)
    (hbehind : ∀ fuel, n ≤ fuel →
      hash.foreach fuel (hash.iteratorAt (hash.nextOccupiedBucket (b + 1))) = .ok rest)
    {l : List Nat} {e : Slot} (he : hash.InBounds e) (hlt : ∀ i ∈ l, i < hash.chainsz)
    (hchain : IsChain hash.link (hash.node e).next l) {fuel : Nat} (hfuel : l.length + 1 + n ≤ fuel) :
    hash.foreach fuel { bucketIdx := b, datum := some e } = .ok (e :: l.map .chain ++ rest) := by
  obtain ⟨fuel, rfl⟩ : ∃ k, fuel = k + 1 := ⟨fuel - 1, by omega⟩
  induction l generalizing e fuel with
  | nil =>
      have hnone : (hash.node e).next = none := hchain
      apply foreach_succ hb he fuel (hbehind fuel (by rw [List.length_nil] at hfuel; omega))
      rw [hnone]
  | cons j l ih =>
      obtain ⟨hnext, htail⟩ := hchain
      rw [List.length_cons] at hfuel
      obtain ⟨fuel, rfl⟩ : ∃ k, fuel = k + 1 := ⟨fuel - 1, by omega⟩
      have hj : hash.InBounds (.chain j) := hlt j (by simp)
      apply foreach_succ hb he (fuel + 1)
        (ih hj (fun i hi => hlt i (List.mem_cons_of_mem j hi)) htail fuel (by omega))
      rw [hnext]

/-- From the first occupied bucket at or behind `idx` the loop visits the entries of all buckets from
`idx` on. -/
theorem Layout.foreach_iteratorAt (h : hash.Layout cs fl) (n idx : Nat)
    (hidx : idx + n = hash.bucketsz) (fuel : Nat)
    (hfuel : (hash.slotsFrom cs idx n).length ≤ fuel) :
    hash.foreach fuel (hash.iteratorAt (hash.nextOccupiedBucket idx))
      = .ok (hash.slotsFrom cs idx n) := by
  induction n using Nat.strong_induction_on generalizing idx fuel with
  | _ n ih =>
      obtain ⟨skipped, left, hn, hloop, hslots, hoccupied⟩ := nextOccupiedLoop_spec hash cs n idx
      rw [hslots] at hfuel ⊢
      rw [nextOccupiedBucket, show hash.bucketsz - idx = n by omega, hloop]
      cases left with
      | zero =>
          apply foreach_of_not_isValid
          exact not_isValid_of_eq (show idx + skipped = hash.bucketsz by omega)
      | succ left =>
          have hb : idx + skipped < hash.bucketsz := by omega
          have hkey := hoccupied (Nat.succ_pos left)
          rw [slotsFrom_succ, slots_of_ne hkey] at hfuel ⊢
          rw [iteratorAt, if_neg hb.ne]
          simp only [List.cons_append, List.length_cons, List.length_append, List.length_map]
            at hfuel
          exact foreach_chain hb
            (fun fuel hle => ih left (by omega) (idx + skipped + 1) (by omega) fuel hle)
            (show hash.InBounds (.bucket (idx + skipped)) from hb) (fun i hi => h.chain_lt hb hi)
            (h.chain _ hb) (by omega)

theorem Layout.length_slotsFrom (h : hash.Layout cs fl) :
    (hash.slotsFrom cs 0 hash.bucketsz).length ≤ hash.bucketsz + hash.chainsz := by
  have hpool := h.pool.length_eq
  rw [List.length_append, List.length_range, List.length_flatMap] at hpool
  have hslots : ∀ l : List Nat, (l.flatMap (hash.slots cs)).length
      ≤ l.length + (l.map fun b => (cs b).length).sum := by
    intro l
    induction l with
    | nil => exact Nat.le_refl 0
    | cons b l ih =>
        have hone : (hash.slots cs b).length ≤ 1 + (cs b).length := by
          unfold slots
          split
          · exact Nat.zero_le _
          · rw [List.length_cons, List.length_map]
            omega
        rw [List.flatMap_cons, List.length_append, List.length_cons, List.map_cons, List.sum_cons]
        omega
  have hall := hslots (List.range hash.bucketsz)
  rw [List.length_range, List.range_eq_range'] at hall
  rw [List.range_eq_range'] at hpool
  rw [slotsFrom]
  omega

/-- The keys in the order of the iteration are the keys of the bounded map. -/
theorem map_key_slotsFrom (hash : Ihash V) (cs : Nat → List Nat) (fl : List Nat) :
    ((hash.slotsFrom cs 0 hash.bucketsz).map fun e => (hash.node e).key)
      = (hash.toBuckets cs fl).keys := by
  rw [slotsFrom, List.map_flatMap, BucketMap.keys, List.range_eq_range']
  apply List.flatMap_congr
  intro b hb
  have hlt : b < hash.bucketsz := by simpa using (List.mem_range'_1.mp hb).2
  simp only [toBuckets]
  rw [if_pos hlt, List.map_map]
  rfl

/-- An entry the loop visits is the one a lookup of its key returns. -/
theorem Layout.getFn_of_mem_slotsFrom (h : hash.Layout cs fl) {e : Slot}
    (he : e ∈ hash.slotsFrom cs 0 hash.bucketsz) :
    hash.getFn (hash.node e).key = .ok (some e) := by
  obtain ⟨b, hb, hmem⟩ := List.mem_flatMap.mp he
  have hlt : b < hash.bucketsz := by simpa using (List.mem_range'_1.mp hb).2
  apply h.getFn_of_mem _ rfl
  rwa [(h.keyed b hlt e hmem).2]

theorem Refines.foreach {m : BucketMap Int64 V} (h : hash.Refines m) :
    ∃ entries, hash.foreach (hash.bucketsz + hash.chainsz) hash.begin = .ok entries
      ∧ (entries.map fun e => (hash.node e).key) = m.keys
      ∧ ∀ e ∈ entries, hash.getFn (hash.node e).key = .ok (some e) := by
  obtain ⟨cs, fl, hlayout, rfl⟩ := h
  exact ⟨hash.slotsFrom cs 0 hash.bucketsz,
    hlayout.foreach_iteratorAt hash.bucketsz 0 (Nat.zero_add _) (hash.bucketsz + hash.chainsz)
      hlayout.length_slotsFrom,
    map_key_slotsFrom hash cs fl, fun e he => hlayout.getFn_of_mem_slotsFrom he⟩

/-- What an iteration over a table in step with its history visits. -/
theorem Simulates.foreach {hist : List (Op V × Reply)} (h : Simulates hist hash) :
    ∃ entries, hash.foreach (hash.bucketsz + hash.chainsz) hash.begin = .ok entries
      ∧ (entries.map fun e => (hash.node e).key).Nodup
      ∧ (∀ key, key ∈ (entries.map fun e => (hash.node e).key) ↔ contents hist key ≠ none)
      ∧ ∀ e ∈ entries, hash.getFn (hash.node e).key = .ok (some e)
          ∧ ∀ v, contents hist (hash.node e).key = some (some v) → (hash.node e).data = v := by
  obtain ⟨m, hrefines, htracks⟩ := h
  obtain ⟨entries, hvisits, hkeys, hget⟩ := hrefines.foreach
  refine ⟨entries, hvisits, ?_, fun key => ?_, fun e he => ?_⟩
  · rw [hkeys]
    exact BucketMap.nodup_keys hrefines.wf
  · rw [hkeys, BucketMap.mem_keys hrefines.wf]
    exact not_congr (htracks key).1.symm
  · refine ⟨hget e he, fun v hv => ?_⟩
    have hlookup := (hrefines.of_getFn (hget e he)).2.2.2
    rw [(htracks _).2 v hv] at hlookup
    exact (Option.some.inj hlookup).symm

/-- **Iteration is exact.** After every run the loop from `ihash_begin` ends and visits every key the
run left in the table once, at its own entry, and nothing else. -/
theorem run_foreach {buckets chains : Nat → Node V} {bucketsz chainsz : Nat}
    {hashFn : Option HashFn} {hash₀ : Ihash V}
    (hinit : initFn buckets chains bucketsz chainsz hashFn = some hash₀) (ops : List (Op V))
    (hops : ∀ op ∈ ops, op.Valid) :
    ∃ hash hist entries, Machine.exec step hash₀ ops = .ok (hash, hist)
      ∧ hash.foreach (hash.bucketsz + hash.chainsz) hash.begin = .ok entries
      ∧ (entries.map fun e => (hash.node e).key).Nodup
      ∧ (∀ key, key ∈ (entries.map fun e => (hash.node e).key) ↔ contents hist key ≠ none)
      ∧ ∀ e ∈ entries, hash.getFn (hash.node e).key = .ok (some e)
          ∧ ∀ v, contents hist (hash.node e).key = some (some v) → (hash.node e).data = v := by
  obtain ⟨hash, hist, hexec, hsim⟩ := simulates_run hinit hops
  obtain ⟨entries, hentries⟩ := Simulates.foreach hsim
  exact ⟨hash, hist, entries, hexec, hentries⟩

/-- Two keys share a bucket, and one of them has been erased. -/
theorem run_foreach_collision :
    ∃ hash hist entries,
      Machine.exec step (clear ⟨1, 1, none, id, fun _ => ⟨0, 0, none⟩, fun _ => ⟨0, 0, none⟩⟩ none)
        [.put 5 (50 : Nat), .put 6 60, .erase 5] = .ok (hash, hist)
      ∧ hash.foreach (hash.bucketsz + hash.chainsz) hash.begin = .ok entries
      ∧ (entries.map fun e => (hash.node e).key).Nodup
      ∧ (∀ key, key ∈ (entries.map fun e => (hash.node e).key) ↔ contents hist key ≠ none)
      ∧ ∀ e ∈ entries, hash.getFn (hash.node e).key = .ok (some e)
          ∧ ∀ v, contents hist (hash.node e).key = some (some v) → (hash.node e).data = v :=
  @run_foreach _ (fun _ => ⟨0, 0, none⟩) (fun _ => ⟨0, 0, none⟩) 1 1 none _ rfl _
    (by
      intro op hop
      simp only [List.mem_cons, List.not_mem_nil, or_false] at hop
      rcases hop with rfl | rfl | rfl <;> decide)

end Scroller.Ihash
