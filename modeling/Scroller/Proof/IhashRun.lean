import Scroller.Lib.Machine
import Scroller.Proof.IhashRefinement

/-!
# Runs of the hash table

A run asks the table for touches, puts, lookups, erasures and clears. Its history determines a finite
map from keys to what was last put for them, and every answer of the table is the answer of that map,
up to the room the buckets and the chain pool have.
-/

namespace Scroller.Ihash

variable {V : Type}

inductive Op (V : Type) where
  | touch (key : Int64)
  | put (key : Int64) (value : V)
  | get (key : Int64)
  | erase (key : Int64)
  | clear (hashFn : Option HashFn)

inductive Reply where
  | entry (e : Option Slot)
  | found (b : Bool)
  | done

/-- The keys the table may be asked about: all but the one that marks an empty slot. -/
def Op.Valid : Op V → Prop
  | .touch key | .put key _ | .get key | .erase key => key ≠ ihashUndef
  | .clear _ => True

instance : (op : Op V) → Decidable op.Valid
  | .touch key | .put key _ | .get key | .erase key =>
      inferInstanceAs (Decidable (key ≠ ihashUndef))
  | .clear _ => inferInstanceAs (Decidable True)

/-- One call on the table. -/
def step (hash : Ihash V) : Op V → Except Fault (Ihash V × Reply)
  | .touch key => do
      let (hash, e) ← hash.touchFn key
      return (hash, .entry e)
  | .put key value => do
      let (hash, e) ← hash.put key value
      return (hash, .entry e)
  | .get key => do
      let e ← hash.getFn key
      return (hash, .entry e)
  | .erase key => do
      let (hash, b) ← hash.eraseFn key
      return (hash, .found b)
  | .clear hashFn => return (hash.clear hashFn, .done)

/-- What one call and its answer do to the finite map: `some none` is a key that was touched and
never put. -/
def record (c : Int64 → Option (Option V)) : Op V × Reply → Int64 → Option (Option V)
  | (.touch key, .entry (some _)) => Function.update c key (some ((c key).getD none))
  | (.put key value, .entry (some _)) => Function.update c key (some (some value))
  | (.erase key, _) => Function.update c key none
  | (.clear _, _) => fun _ => none
  | _ => c

/-- The finite map after a history. -/
def contents (hist : List (Op V × Reply)) : Int64 → Option (Option V) :=
  hist.foldl record fun _ => none

/-- The answer to a call is the one of the finite map `c`, and the table changes as the map does. -/
def Answers (c : Int64 → Option (Option V)) (hash : Ihash V) (op : Op V) (hash' : Ihash V)
    (reply : Reply) : Prop :=
  match op with
  | .get key =>
      ∃ e, reply = .entry e ∧ hash' = hash ∧ (e = none ↔ c key = none)
        ∧ ∀ s, e = some s → (hash.node s).key = key
            ∧ ∀ v, c key = some (some v) → (hash.node s).data = v
  | .touch key =>
      ∃ e, reply = .entry e ∧ (e = none ↔ c key = none ∧ hash.Exhausted key)
        ∧ (e = none → hash' = hash)
        ∧ (∀ s, e = some s → hash'.getFn key = .ok (some s))
        ∧ (c key ≠ none → hash' = hash)
        ∧ ∀ k ≠ key, hash'.value k = hash.value k
  | .put key v =>
      ∃ e, reply = .entry e ∧ (e = none ↔ c key = none ∧ hash.Exhausted key)
        ∧ (e = none → hash' = hash)
        ∧ (∀ s, e = some s → hash'.getFn key = .ok (some s) ∧ hash'.value key = some v)
        ∧ ∀ k ≠ key, hash'.value k = hash.value k
  | .erase key =>
      reply = .found (c key).isSome ∧ hash'.value key = none
        ∧ ∀ k ≠ key, hash'.value k = hash.value k
  | .clear _ => reply = .done ∧ ∀ k, hash'.value k = none

/-! ### The simulation -/

/-- The recorded data of a key is the stored data where something was put. -/
def Tracks (c : Option (Option V)) (v : Option V) : Prop :=
  (c = none ↔ v = none) ∧ ∀ w, c = some (some w) → v = some w

/-- The table refines a bounded map whose keys and data are those of the history. -/
def Simulates (hist : List (Op V × Reply)) (hash : Ihash V) : Prop :=
  ∃ m, hash.Refines m ∧ ∀ key, Tracks (contents hist key) (m.lookup key)

theorem contents_append (hist : List (Op V × Reply)) (x : Op V × Reply) :
    contents (hist ++ [x]) = record (contents hist) x := by
  rw [contents, List.foldl_append]
  rfl

theorem tracks_update {c : Int64 → Option (Option V)} {old new : Int64 → Option V}
    {key : Int64} {x : Option (Option V)} (hold : ∀ k, Tracks (c k) (old k))
    (hkey : Tracks x (new key)) (hother : ∀ k ≠ key, new k = old k) (k : Int64) :
    Tracks (Function.update c key x k) (new k) := by
  by_cases hk : k = key
  · subst hk
    rwa [Function.update_self]
  · rw [Function.update_of_ne hk, hother k hk]
    exact hold k

section StepLemmas

variable {hist : List (Op V × Reply)} {hash : Ihash V} {key : Int64}

theorem answers_get (h : Simulates hist hash) :
    ∃ hash' reply, hash.step (.get key) = .ok (hash', reply)
      ∧ Simulates (hist ++ [(.get key, reply)]) hash'
      ∧ Answers (contents hist) hash (.get key) hash' reply := by
  obtain ⟨m, hrefines, htracks⟩ := h
  obtain ⟨e, hget, hlookup⟩ := hrefines.getFn key
  refine ⟨hash, .entry e, ?_, ⟨m, hrefines, ?_⟩, e, rfl, rfl, ?_, ?_⟩
  · rw [step, hget]
    rfl
  · rw [contents_append]
    exact htracks
  · rw [(htracks key).1, hlookup, Option.map_eq_none_iff]
  · rintro s rfl
    refine ⟨(hrefines.of_getFn hget).2.1, fun v hv => ?_⟩
    have hsame := (htracks key).2 v hv
    rw [hlookup] at hsame
    exact Option.some.inj hsame

theorem answers_touch (h : Simulates hist hash) (hkey : key ≠ ihashUndef) :
    ∃ hash' reply, hash.step (.touch key) = .ok (hash', reply)
      ∧ Simulates (hist ++ [(.touch key, reply)]) hash'
      ∧ Answers (contents hist) hash (.touch key) hash' reply := by
  obtain ⟨m, hrefines, htracks⟩ := h
  cases hlookup : m.lookup key with
  | some v =>
      obtain ⟨s, hget, hdata⟩ := hrefines.getFn_some hlookup
      have hpresent : contents hist key ≠ none := by
        rw [Ne, (htracks key).1, hlookup]
        simp
      obtain ⟨x, hx⟩ := Option.ne_none_iff_exists'.mp hpresent
      refine ⟨hash, .entry (some s), ?_, ⟨m, hrefines, fun k => ?_⟩, some s, rfl, ?_,
        fun _ => rfl, ?_, fun _ => rfl, fun _ _ => rfl⟩
      · rw [step, hrefines.touchFn_of_getFn hget]
        rfl
      · rw [contents_append, record, hx, Option.getD_some, ← hx, Function.update_eq_self]
        exact htracks k
      · simp [hpresent]
      · rintro s' hs
        rw [← Option.some.inj hs]
        exact hget
  | none =>
      have habsent : contents hist key = none := (htracks key).1.mpr hlookup
      by_cases hroom : m.Room key
      · obtain ⟨hash', e, htouch, -, hget, hrefines'⟩ :=
          hrefines.touchFn_insert hkey hlookup hroom
        have hnot : ¬ hash.Exhausted key := by
          rw [← hrefines.not_room_iff, not_not]
          exact hroom
        refine ⟨hash', .entry (some e), ?_, ⟨_, hrefines', ?_⟩, some e, rfl, ?_, ?_, ?_, ?_, ?_⟩
        · rw [step, htouch]
          rfl
        · rw [contents_append, record, habsent]
          refine tracks_update htracks ?_ fun k hk => BucketMap.lookup_insert_of_ne hk
          rw [BucketMap.lookup_insert_self hlookup]
          exact ⟨by simp, by simp⟩
        · simp [hnot]
        · intro hcontra
          cases hcontra
        · rintro s hs
          rw [← Option.some.inj hs]
          exact hget
        · exact fun hpresent => absurd habsent hpresent
        · intro k hk
          rw [hrefines'.value_eq, hrefines.value_eq, BucketMap.lookup_insert_of_ne hk]
      · refine ⟨hash, .entry none, ?_, ⟨m, hrefines, fun k => ?_⟩, none, rfl, ?_, fun _ => rfl, ?_,
          fun _ => rfl, fun _ _ => rfl⟩
        · rw [step, hrefines.touchFn_of_not_room hlookup hroom]
          rfl
        · rw [contents_append]
          exact htracks k
        · simp [habsent, hrefines.not_room_iff.mp hroom]
        · intro s hs
          cases hs

theorem answers_put (h : Simulates hist hash) (hkey : key ≠ ihashUndef) (v : V) :
    ∃ hash' reply, hash.step (.put key v) = .ok (hash', reply)
      ∧ Simulates (hist ++ [(.put key v, reply)]) hash'
      ∧ Answers (contents hist) hash (.put key v) hash' reply := by
  obtain ⟨m, hrefines, htracks⟩ := h
  have hwrite : ∀ (hash₁ : Ihash V) (m₁ : BucketMap Int64 V) (s : Slot), hash₁.Refines m₁ →
      hash₁.getFn key = .ok (some s) → (∀ k ≠ key, m₁.lookup k = m.lookup k) →
      hash.touchFn key = .ok (hash₁, some s) → ¬ (contents hist key = none ∧ hash.Exhausted key) →
      ∃ hash' reply, hash.step (.put key v) = .ok (hash', reply)
        ∧ Simulates (hist ++ [(.put key v, reply)]) hash'
        ∧ Answers (contents hist) hash (.put key v) hash' reply := by
    intro hash₁ m₁ s hrefines₁ hget₁ hsame htouch hroom
    obtain ⟨hrefines', hget'⟩ := hrefines₁.setData hget₁ v
    have hold : m₁.lookup key ≠ none := by
      rw [(hrefines₁.of_getFn hget₁).2.2.2]
      simp
    refine ⟨hash₁.setData s v, .entry (some s), ?_, ⟨_, hrefines', ?_⟩, some s, rfl, ?_, ?_, ?_, ?_⟩
    · rw [step, put, htouch]
      rfl
    · rw [contents_append, record]
      refine tracks_update htracks ?_ fun k hk => (BucketMap.lookup_set_of_ne hk).trans (hsame k hk)
      rw [BucketMap.lookup_set_self hold]
      exact ⟨by simp, by simp⟩
    · simpa using hroom
    · intro hcontra
      cases hcontra
    · rintro s' hs
      rw [← Option.some.inj hs, hrefines'.value_eq, BucketMap.lookup_set_self hold]
      exact ⟨hget', rfl⟩
    · intro k hk
      rw [hrefines'.value_eq, hrefines.value_eq, BucketMap.lookup_set_of_ne hk, hsame k hk]
  cases hlookup : m.lookup key with
  | some w =>
      obtain ⟨s, hget, -⟩ := hrefines.getFn_some hlookup
      refine hwrite hash m s hrefines hget (fun _ _ => rfl) (hrefines.touchFn_of_getFn hget) ?_
      rw [(htracks key).1, hlookup]
      simp
  | none =>
      by_cases hroom : m.Room key
      · obtain ⟨hash₁, s, htouch, -, hget, hrefines₁⟩ :=
          hrefines.touchFn_insert hkey hlookup hroom
        refine hwrite hash₁ _ s hrefines₁ hget (fun k hk => BucketMap.lookup_insert_of_ne hk) htouch ?_
        rintro ⟨-, hexhausted⟩
        exact hrefines.not_room_iff.mpr hexhausted hroom
      · refine ⟨hash, .entry none, ?_, ⟨m, hrefines, fun k => ?_⟩, none, rfl, ?_, fun _ => rfl, ?_,
          fun _ _ => rfl⟩
        · rw [step, put, hrefines.touchFn_of_not_room hlookup hroom]
          rfl
        · rw [contents_append]
          exact htracks k
        · simp [(htracks key).1.mpr hlookup, hrefines.not_room_iff.mp hroom]
        · intro s hs
          cases hs

theorem answers_erase (h : Simulates hist hash) (hkey : key ≠ ihashUndef) :
    ∃ hash' reply, hash.step (.erase key) = .ok (hash', reply)
      ∧ Simulates (hist ++ [(.erase key, reply)]) hash'
      ∧ Answers (contents hist) hash (.erase key) hash' reply := by
  obtain ⟨m, hrefines, htracks⟩ := h
  by_cases hlookup : m.lookup key = none
  · have habsent := (htracks key).1.mpr hlookup
    refine ⟨hash, .found false, ?_, ⟨m, hrefines, fun k => ?_⟩, ?_, ?_, fun _ _ => rfl⟩
    · rw [step, hrefines.eraseFn_of_absent hlookup]
      rfl
    · rw [contents_append, record, ← habsent, Function.update_eq_self]
      exact htracks k
    · rw [habsent]
      rfl
    · rw [hrefines.value_eq, hlookup]
  · obtain ⟨hash', herase, -, hrefines'⟩ := hrefines.eraseFn_of_present hkey hlookup
    refine ⟨hash', .found true, ?_, ⟨_, hrefines', ?_⟩, ?_, ?_, ?_⟩
    · rw [step, herase]
      rfl
    · rw [contents_append, record]
      refine tracks_update htracks ?_ fun k hk => BucketMap.lookup_erase_of_ne hk
      rw [BucketMap.lookup_erase_self]
      exact ⟨by simp, by simp⟩
    · have hpresent : contents hist key ≠ none := fun hnone => hlookup ((htracks key).1.mp hnone)
      rw [Option.isSome_iff_ne_none.mpr hpresent]
    · rw [hrefines'.value_eq, BucketMap.lookup_erase_self]
    · intro k hk
      rw [hrefines'.value_eq, hrefines.value_eq, BucketMap.lookup_erase_of_ne hk]

theorem answers_clear (h : Simulates hist hash) (hashFn : Option HashFn) :
    ∃ hash' reply, hash.step (.clear hashFn) = .ok (hash', reply)
      ∧ Simulates (hist ++ [(.clear hashFn, reply)]) hash'
      ∧ Answers (contents hist) hash (.clear hashFn) hash' reply := by
  obtain ⟨m, ⟨cs, fl, hlayout, -⟩, -⟩ := h
  have hrefines := refines_clear hash hlayout.pos hashFn
  refine ⟨hash.clear hashFn, .done, rfl, ⟨_, hrefines, fun k => ?_⟩, rfl, fun k => ?_⟩
  · rw [contents_append, record, lookup_emptyBuckets]
    exact ⟨by simp, by simp⟩
  · rw [hrefines.value_eq, lookup_emptyBuckets]

/-- Every valid call on a table in step with its history is answered as the finite map says. -/
theorem answers_step (h : Simulates hist hash) {op : Op V} (hop : op.Valid) :
    ∃ hash' reply, hash.step op = .ok (hash', reply)
      ∧ Simulates (hist ++ [(op, reply)]) hash'
      ∧ Answers (contents hist) hash op hash' reply := by
  cases op with
  | touch key => exact answers_touch h hop
  | put key v => exact answers_put h hop v
  | get key => exact answers_get h
  | erase key => exact answers_erase h hop
  | clear hashFn => exact answers_clear h hashFn

end StepLemmas

theorem simulates_init {buckets chains : Nat → Node V} {bucketsz chainsz : Nat}
    {hashFn : Option HashFn} {hash : Ihash V}
    (hinit : initFn buckets chains bucketsz chainsz hashFn = some hash) : Simulates [] hash := by
  unfold initFn at hinit
  split at hinit
  · cases hinit
  · rename_i hne
    cases hinit
    refine ⟨_, refines_clear _ (Nat.pos_of_ne_zero hne) hashFn, fun key => ?_⟩
    rw [lookup_emptyBuckets]
    exact ⟨by simp [contents], by simp [contents]⟩

theorem simulates_run {buckets chains : Nat → Node V} {bucketsz chainsz : Nat} {hashFn : Option HashFn}
    {hash₀ : Ihash V} (hinit : initFn buckets chains bucketsz chainsz hashFn = some hash₀) {ops : List (Op V)}
    (hops : ∀ op ∈ ops, op.Valid) :
    ∃ hash hist, Machine.exec step hash₀ ops = .ok (hash, hist) ∧ Simulates hist hash := by
  refine Machine.exec_progress Simulates Op.Valid [] ?_ (simulates_init hinit) hops
  intro hist hash op hsim hvalid
  obtain ⟨hash', reply, hstep, hsim', -⟩ := answers_step hsim hvalid
  exact ⟨hash', reply, hstep, hsim'⟩

/-- **The hash table refines a bounded finite map.** Every run of valid calls is answered to its end,
and the call after it is answered as the finite map of the run says. -/
theorem run_refines_map {buckets chains : Nat → Node V} {bucketsz chainsz : Nat}
    {hashFn : Option HashFn} {hash₀ : Ihash V}
    (hinit : initFn buckets chains bucketsz chainsz hashFn = some hash₀) (ops : List (Op V))
    (hops : ∀ op ∈ ops, op.Valid) (op : Op V) (hop : op.Valid) :
    ∃ hash hist hash' reply, Machine.exec step hash₀ ops = .ok (hash, hist)
      ∧ hash.step op = .ok (hash', reply)
      ∧ Answers (contents hist) hash op hash' reply := by
  obtain ⟨hash, hist, hexec, hsim⟩ := simulates_run hinit hops
  obtain ⟨hash', reply, hstep, -, hanswers⟩ := answers_step hsim hop
  exact ⟨hash, hist, hash', reply, hexec, hstep, hanswers⟩

/-- Two keys of one bucket and a full pool: the third put has no room. -/
theorem run_refines_map_collision :
    ∃ hash hist hash' reply,
      Machine.exec step (clear ⟨1, 1, none, id, fun _ => ⟨0, 0, none⟩, fun _ => ⟨0, 0, none⟩⟩ none)
        [.put 5 50, .put 6 60] = .ok (hash, hist)
      ∧ hash.step (.put 7 70) = .ok (hash', reply)
      ∧ Answers (contents hist) hash (.put 7 (70 : Nat)) hash' reply :=
  @run_refines_map _ (fun _ => ⟨0, 0, none⟩) (fun _ => ⟨0, 0, none⟩) 1 1 none _ rfl _
    (by
      intro op hop
      rcases List.mem_cons.mp hop with rfl | hop
      · decide
      · rw [List.mem_singleton.mp hop]
        decide)
    _ (by decide)

end Scroller.Ihash
