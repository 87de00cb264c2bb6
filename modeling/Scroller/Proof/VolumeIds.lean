import Scroller.Proof.ScanCommands
import Scroller.Volume

/-!
# Ids over restarts

Two files get one name exactly if the server crashes while the file of the sequence is behind, and an id is drawn
afterwards. `create_catalog` leaves it behind: it is the command that does not flush what it has drawn.
-/

namespace Scroller

open Outcome

namespace Volume

variable {cfg : Config} {v v' : Volume} {op : VolumeOp} {ids : List Gid}

/-! ### One command -/

/-- What a command does to the sequence and to its file. -/
inductive Draws (build : Build) (v : Volume) : VolumeOp → Volume → List Gid → Prop
  | none {op : VolumeOp} {v' : Volume} (hop : ∀ db, op ≠ .crash db) (hsequence : v'.db.sequence = v.db.sequence)
      (hfile : v'.file = v.file ∨ v'.file = v.db.sequence) : Draws build v op v' []
  | one {op : VolumeOp} {v' : Volume} {id : Int64} (hop : ∀ db, op ≠ .crash db)
      (hnext : sequenceNextval build v.db.sequence = .ok (some (v'.db.sequence, id)))
      (hfile : v'.file = v.file ∨ v'.file = v'.db.sequence) : Draws build v op v' [.ofParts id.toUInt64 0]
  | lost {db : Db} : Draws build v (.crash db) ⟨{ db with sequence := v.file }, v.file⟩ []

/-- A function of a command draws one id or none. -/
def DrawsOnce (build : Build) (old new : Sequence) : Prop :=
  new = old ∨ ∃ id, sequenceNextval build old = .ok (some (new, id))

theorem drawsOnce_createCatalog {db db' : Db} {catalog : List UInt8} {status : ScrcStatus}
    (h : createCatalog cfg db catalog = .ok (db', status)) : DrawsOnce cfg.build db.sequence db'.sequence := by
  obtain ⟨⟨rows, valid⟩, -, h⟩ := bind_eq_ok.mp h
  dsimp only at h
  split at h
  · cases h
    exact Or.inl rfl
  · obtain ⟨out, hnext, h⟩ := bind_eq_ok.mp h
    cases out with
    | none =>
        cases h
        exact Or.inl rfl
    | some out =>
        obtain ⟨sequence, id⟩ := out
        obtain ⟨-, -, h⟩ := bind_eq_ok.mp h
        split at h
        · cases h
          exact Or.inr ⟨id, hnext⟩
        · cases h
          exact Or.inr ⟨id, hnext⟩

theorem drawsOnce_createTable {db db' : Db} {session : Session} {schema tname : List UInt8} {decls : List Decl}
    {content : GridContent} {status : ScrcStatus}
    (h : createTable cfg db session schema tname decls content = .ok (db', status)) :
    DrawsOnce cfg.build db.sequence db'.sequence := by
  obtain ⟨out, hnext, h⟩ := bind_eq_ok.mp h
  cases out with
  | none =>
      cases h
      exact Or.inl rfl
  | some out =>
      obtain ⟨sequence, id⟩ := out
      obtain ⟨grid, -, h⟩ := bind_eq_ok.mp h
      dsimp only at h
      split at h
      · cases h
        exact Or.inr ⟨id, hnext⟩
      · obtain ⟨⟨relation, valid⟩, -, h⟩ := bind_eq_ok.mp h
        cases h
        exact Or.inr ⟨id, hnext⟩

theorem drawsOnce_findRelation {db db' : Db} {session : Session} {schema table : List UInt8} {gp : GidPair}
    (h : findRelation cfg db session schema table true true = .ok (db', gp)) :
    DrawsOnce cfg.build db.sequence db'.sequence := by
  rw [findRelation] at h
  split at h
  · cases h
    exact Or.inl rfl
  next row i hrow =>
    obtain ⟨-, -, h⟩ := bind_eq_ok.mp h
    dsimp only at h
    split at h
    · obtain ⟨created, hcreated, h⟩ := bind_eq_ok.mp h
      obtain ⟨out, hnext, hcreated⟩ := bind_eq_ok.mp hcreated
      cases out with
      | none =>
          cases hcreated
          cases h
          exact Or.inl rfl
      | some out =>
          obtain ⟨sequence, id⟩ := out
          obtain ⟨dtable, -, hcreated⟩ := bind_eq_ok.mp hcreated
          cases hcreated
          cases h
          exact Or.inr ⟨id, hnext⟩
    · cases h
      exact Or.inl rfl

theorem drawsOnce_insert {db db' : Db} {session session' : Session} {schema table : List UInt8}
    {names : List (List UInt8)} {values : List Datum} {content : GridContent} {leftover : Option Tran}
    {status : ScrcStatus} {row : Option Mitor}
    (h : insert cfg db session schema table names values content leftover = .ok (db', session', status, row)) :
    DrawsOnce cfg.build db.sequence db'.sequence := by
  obtain ⟨⟨db₁, gp⟩, hfind, h⟩ := bind_eq_ok.mp h
  have hdraws := drawsOnce_findRelation hfind
  obtain ⟨-, -, h⟩ := bind_eq_ok.mp h
  dsimp only at h
  split at h
  · cases h
    exact hdraws
  · obtain ⟨-, -, h⟩ := bind_eq_ok.mp h
    cases content with
    | pure =>
        dsimp only at h
        split at h
        · cases h
          exact hdraws
        · obtain ⟨⟨db₂, status₂, row₂⟩, hrow, h⟩ := bind_eq_ok.mp h
          cases h
          rw [(Db.insertRow_sameSystem hrow).sequence]
          exact hdraws
    | mvcc =>
        obtain ⟨⟨ts, session₁, status₁⟩, -, h⟩ := bind_eq_ok.mp h
        dsimp only at h
        split at h
        · split at h
          · cases h
            exact hdraws
          · obtain ⟨⟨db₂, status₂, row₂⟩, hrow, h⟩ := bind_eq_ok.mp h
            cases h
            rw [(Db.insertRow_sameSystem hrow).sequence]
            exact hdraws
        · cases h
        · cases h
          exact hdraws

theorem lastVal_of_nextval {build : Build} {old new : Sequence} {id : Int64}
    (h : sequenceNextval build old = .ok (some (new, id))) : new.lastVal = id := by
  obtain ⟨-, -, h⟩ := bind_eq_ok.mp h
  split at h
  · obtain ⟨newval, -, h⟩ := bind_eq_ok.mp h
    repeat' split at h
    all_goals cases h
    all_goals rfl
  · cases h
    rfl

theorem drawn_of_nextval {build : Build} {old new : Sequence} {id : Int64} (hold : old.Plain)
    (h : sequenceNextval build old = .ok (some (new, id))) : drawn old new = [.ofParts id.toUInt64 0] := by
  obtain ⟨new', id', heq, -, hissued, -⟩ := hold.nextval h
  cases heq
  have hne : new ≠ old := by
    rintro rfl
    omega
  rw [drawn, if_neg hne, lastVal_of_nextval h]

theorem draws_of_once (hplain : v.db.sequence.Plain) {db : Db} {file : Sequence}
    (hop : ∀ db, op ≠ .crash db) (hdraws : DrawsOnce cfg.build v.db.sequence db.sequence)
    (hfile : file = v.file ∨ file = db.sequence) :
    Draws cfg.build v op ⟨db, file⟩ (drawn v.db.sequence db.sequence) := by
  rcases hdraws with hsame | ⟨id, hnext⟩
  · rw [drawn, if_pos hsame]
    refine .none hop hsame ?_
    rcases hfile with hfile | hfile
    · exact Or.inl hfile
    · exact Or.inr (hfile.trans hsame)
  · rw [drawn_of_nextval hplain hnext]
    exact .one hop hnext hfile

theorem step_draws (hplain : v.db.sequence.Plain) (hstep : v.step cfg op = .ok (v', ids)) :
    Draws cfg.build v op v' ids := by
  cases op with
  | createCatalog catalog =>
      obtain ⟨⟨db, status⟩, h, hstep⟩ := bind_eq_ok.mp hstep
      cases hstep
      refine draws_of_once hplain (fun db hcrash => ?_) (drawsOnce_createCatalog h) (Or.inl rfl)
      cases hcrash
  | createTable session schema tname decls content =>
      obtain ⟨⟨db, status⟩, h, hstep⟩ := bind_eq_ok.mp hstep
      cases hstep
      refine draws_of_once hplain (fun db hcrash => ?_) (drawsOnce_createTable h) ?_
      · cases hcrash
      · split
        · exact Or.inr rfl
        · exact Or.inl rfl
  | insert session schema table names values content leftover =>
      obtain ⟨⟨db, session', status, row⟩, h, hstep⟩ := bind_eq_ok.mp hstep
      cases hstep
      refine draws_of_once hplain (fun db hcrash => ?_) (drawsOnce_insert h) ?_
      · cases hcrash
      · split
        · exact Or.inl rfl
        · exact Or.inr rfl
  | writeBack =>
      cases hstep
      refine .none (fun db hcrash => ?_) rfl (Or.inr rfl)
      cases hcrash
  | crash db =>
      cases hstep
      exact .lost

/-! ### Runs -/

/-- The numbers of the files that a run names. -/
def nums (hist : List (VolumeOp × List Gid)) : List Nat := (hist.flatMap Prod.snd).map Gid.num

theorem nums_cons (entry : VolumeOp × List Gid) (hist : List (VolumeOp × List Gid)) :
    nums (entry :: hist) = entry.2.map Gid.num ++ nums hist := by
  rw [nums, List.flatMap_cons, List.map_append]
  rfl

theorem nums_append (hist hist' : List (VolumeOp × List Gid)) : nums (hist ++ hist') = nums hist ++ nums hist' := by
  rw [nums, List.flatMap_append, List.map_append]
  rfl

/-- The file is the sequence or an earlier state of it. -/
structure Counts (v : Volume) : Prop where
  live : v.db.sequence.Plain
  file : v.file.Plain
  behind : v.file.issued ≤ v.db.sequence.issued

/-- What a command names, by its number, and where it leaves the sequence and its file. -/
inductive Counted (v v' : Volume) (numbers : List Nat) : Prop
  | none (hnumbers : numbers = []) (hlive : v'.db.sequence.issued = v.db.sequence.issued)
      (hfile : v'.file.issued = v.file.issued ∨ v'.file.issued = v'.db.sequence.issued)
  | one (hnumbers : numbers = [v.db.sequence.issued + 1]) (hlive : v'.db.sequence.issued = v.db.sequence.issued + 1)
      (hfile : v'.file.issued = v.file.issued ∨ v'.file.issued = v'.db.sequence.issued)

theorem num_of_nextval {build : Build} {old new : Sequence} {id : Int64} (hold : old.Plain)
    (hroom : old.issued + 1 < 2 ^ 40) (h : sequenceNextval build old = .ok (some (new, id))) :
    new.Plain ∧ new.issued = old.issued + 1 ∧ (Gid.ofParts id.toUInt64 0).num = old.issued + 1 := by
  obtain ⟨new', id', heq, hplain, hissued, hid⟩ := hold.nextval h
  cases heq
  refine ⟨hplain, hissued, ?_⟩
  have hnat : id.toUInt64.toNat = old.issued + 1 := by
    have hnonneg : (0 : Int64).toInt ≤ id.toInt := by
      rw [hid]
      exact Int.natCast_nonneg _
    have hclamp := Int64.toNat_toUInt64_of_le (Int64.le_iff_toInt_le.mpr hnonneg)
    rw [hclamp]
    show id.toInt.toNat = old.issued + 1
    omega
  rw [Gid.ofParts_zero (by omega)]
  exact hnat

theorem Draws.counts {build : Build} (h : v.Counts) (hroom : v.db.sequence.issued + 1 < 2 ^ 40)
    (hdraws : Draws build v op v' ids) : v'.Counts := by
  cases hdraws with
  | none hop hsequence hfile =>
      have hlive := h.live
      rw [← hsequence] at hlive
      rcases hfile with hfile | hfile
      · refine ⟨hlive, ?_, ?_⟩
        · rw [hfile]
          exact h.file
        · rw [hfile, hsequence]
          exact h.behind
      · refine ⟨hlive, ?_, ?_⟩
        · rw [hfile]
          exact h.live
        · rw [hfile, hsequence]
  | one hop hnext hfile =>
      obtain ⟨hplain, hissued, -⟩ := num_of_nextval h.live hroom hnext
      have hbehind := h.behind
      rcases hfile with hfile | hfile
      · refine ⟨hplain, ?_, ?_⟩
        · rw [hfile]
          exact h.file
        · rw [hfile]
          omega
      · refine ⟨hplain, ?_, ?_⟩
        · rw [hfile]
          exact hplain
        · rw [hfile]
  | lost => exact ⟨h.file, h.file, Nat.le_refl _⟩

theorem Draws.counted {build : Build} (h : v.Counts) (hroom : v.db.sequence.issued + 1 < 2 ^ 40)
    (hdraws : Draws build v op v' ids) (hop : ∀ db, op ≠ .crash db) : Counted v v' (ids.map Gid.num) := by
  cases hdraws with
  | none _ hsequence hfile =>
      refine .none rfl (by rw [hsequence]) ?_
      rcases hfile with hfile | hfile
      · exact Or.inl (by rw [hfile])
      · exact Or.inr (by rw [hfile, hsequence])
  | one _ hnext hfile =>
      obtain ⟨-, hissued, hnum⟩ := num_of_nextval h.live hroom hnext
      refine .one (by rw [List.map_singleton, hnum]) hissued ?_
      rcases hfile with hfile | hfile
      · exact Or.inl (by rw [hfile])
      · exact Or.inr (by rw [hfile])
  | lost => exact absurd rfl (hop _)

theorem Draws.issued_le {build : Build} (h : v.Counts) (hroom : v.db.sequence.issued + 1 < 2 ^ 40)
    (hdraws : Draws build v op v' ids) : v'.db.sequence.issued ≤ v.db.sequence.issued + 1 := by
  cases hdraws with
  | none _ hsequence => rw [hsequence]; omega
  | one _ hnext =>
      obtain ⟨-, hissued, -⟩ := num_of_nextval h.live hroom hnext
      rw [hissued]
  | lost => exact h.behind.trans (Nat.le_succ _)

/-- One command in front of the others. -/
theorem exec_cons (h : v.Counts) {op : VolumeOp} {ops : List VolumeOp} (hroom : v.db.sequence.issued + (ops.length + 1) < 2 ^ 40)
    {hist : List (VolumeOp × List Gid)} (hexec : Machine.exec (step cfg) v (op :: ops) = .ok (v', hist)) :
    ∃ v₁ ids rest, Draws cfg.build v op v₁ ids ∧ v₁.Counts ∧ v₁.db.sequence.issued + ops.length < 2 ^ 40
      ∧ Machine.exec (step cfg) v (op :: []) = .ok (v₁, [(op, ids)])
      ∧ Machine.exec (step cfg) v₁ ops = .ok (v', rest) ∧ hist = (op, ids) :: rest := by
  obtain ⟨v₁, ids, rest, hone, hrest, rfl⟩ := Machine.exec_cons_eq_ok.mp hexec
  have hdraws := step_draws h.live hone
  have hle := hdraws.issued_le h (by omega)
  exact ⟨v₁, ids, rest, hdraws, hdraws.counts h (by omega), by omega,
    Machine.exec_cons_eq_ok.mpr ⟨v₁, ids, [], hone, rfl, rfl⟩, hrest, rfl⟩

/-- Where the file is not behind, the first number that is named is the next one. -/
theorem first_named (h : v.Counts) (hfile : v.file.issued = v.db.sequence.issued) {ops : List VolumeOp}
    (hroom : v.db.sequence.issued + ops.length < 2 ^ 40) {hist : List (VolumeOp × List Gid)}
    (hexec : Machine.exec (step cfg) v ops = .ok (v', hist)) (hnamed : nums hist ≠ []) :
    v.db.sequence.issued + 1 ∈ nums hist := by
  induction ops generalizing v hist with
  | nil =>
      cases hexec
      exact absurd rfl hnamed
  | cons op ops ih =>
      obtain ⟨v₁, ids, rest, hdraws, hcounts, hroom₁, -, hrest, rfl⟩ := exec_cons h hroom hexec
      rw [nums_cons] at hnamed ⊢
      by_cases hcrash : ∃ db, op = .crash db
      · obtain ⟨db, rfl⟩ := hcrash
        cases hdraws with
        | none hop => exact absurd rfl (hop db)
        | one hop => exact absurd rfl (hop db)
        | lost =>
            have hnext := ih hcounts rfl hroom₁ hrest hnamed
            rw [← hfile]
            exact hnext
      · have hnext : v.db.sequence.issued + 1 < 2 ^ 40 := by
          rw [List.length_cons] at hroom
          omega
        rcases hdraws.counted h hnext (fun db hdb => hcrash ⟨db, hdb⟩) with
          ⟨hnumbers, hlive, hstays⟩ | ⟨hnumbers, -, -⟩
        · rw [hnumbers] at hnamed ⊢
          have hfile₁ : v₁.file.issued = v₁.db.sequence.issued := by omega
          have hnext := ih hcounts hfile₁ hroom₁ hrest hnamed
          rw [← hlive]
          exact hnext
        · rw [hnumbers]
          exact List.mem_append_left _ List.mem_cons_self

/-- What the file does not have was named before. -/
theorem named_of_behind (h : v.Counts) {named : List Nat}
    (hnamed : ∀ n, v.file.issued < n → n ≤ v.db.sequence.issued → n ∈ named) {ops : List VolumeOp}
    (hroom : v.db.sequence.issued + ops.length < 2 ^ 40) {hist : List (VolumeOp × List Gid)}
    (hexec : Machine.exec (step cfg) v ops = .ok (v', hist)) :
    v'.Counts ∧ v'.db.sequence.issued ≤ v.db.sequence.issued + ops.length
      ∧ ∀ n, v'.file.issued < n → n ≤ v'.db.sequence.issued → n ∈ named ++ nums hist := by
  induction ops generalizing v named hist with
  | nil =>
      cases hexec
      refine ⟨h, Nat.le_refl _, fun n hlow hhigh => ?_⟩
      rw [nums, List.flatMap_nil, List.map_nil, List.append_nil]
      exact hnamed n hlow hhigh
  | cons op ops ih =>
      obtain ⟨v₁, ids, rest, hdraws, hcounts, hroom₁, -, hrest, rfl⟩ := exec_cons h hroom hexec
      have hnext : v.db.sequence.issued + 1 < 2 ^ 40 := by
        rw [List.length_cons] at hroom
        omega
      have hle := hdraws.issued_le h hnext
      have hnamed₁ : ∀ n, v₁.file.issued < n → n ≤ v₁.db.sequence.issued → n ∈ named ++ ids.map Gid.num := by
        intro n hlow hhigh
        by_cases hcrash : ∃ db, op = .crash db
        · obtain ⟨db, rfl⟩ := hcrash
          cases hdraws with
          | none hop => exact absurd rfl (hop db)
          | one hop => exact absurd rfl (hop db)
          | lost => exact absurd hhigh (Nat.not_le.mpr hlow)
        · rcases hdraws.counted h hnext (fun db hdb => hcrash ⟨db, hdb⟩) with
            ⟨hnumbers, hlive, hfile⟩ | ⟨hnumbers, hlive, hfile⟩
          · rw [hnumbers, List.append_nil]
            exact hnamed n (by omega) (by omega)
          · rw [hnumbers]
            by_cases hlast : n = v.db.sequence.issued + 1
            · rw [hlast]
              exact List.mem_append_right _ List.mem_cons_self
            · exact List.mem_append_left _ (hnamed n (by omega) (by omega))
      obtain ⟨hcounts', hle', hend⟩ := ih hcounts hnamed₁ hroom₁ hrest
      refine ⟨hcounts', ?_, fun n hlow hhigh => ?_⟩
      · rw [List.length_cons]
        omega
      · rw [nums_cons, ← List.append_assoc]
        exact hend n hlow hhigh

/-- A crash that finds the file behind, with what is done afterwards. -/
def LosesNothing (cfg : Config) (v : Volume) (ops : List VolumeOp) : Prop :=
  ∀ before db after v₁ v₂ hist₁ hist₂, ops = before ++ .crash db :: after →
    Machine.exec (step cfg) v before = .ok (v₁, hist₁) → v₁.file.issued ≠ v₁.db.sequence.issued →
    Machine.exec (step cfg) ⟨{ db with sequence := v₁.file }, v₁.file⟩ after = .ok (v₂, hist₂) →
    hist₂.flatMap Prod.snd = []

theorem LosesNothing.tail {op : VolumeOp} {ops : List VolumeOp} {v₁ : Volume} {entries : List (VolumeOp × List Gid)}
    (h : LosesNothing cfg v (op :: ops)) (hone : Machine.exec (step cfg) v [op] = .ok (v₁, entries)) :
    LosesNothing cfg v₁ ops := by
  intro before db after v₂ v₃ hist₁ hist₂ hops hbefore hbehind hafter
  refine h (op :: before) db after v₂ v₃ (entries ++ hist₁) hist₂ (by rw [hops, List.cons_append]) ?_ hbehind hafter
  exact Machine.exec_append hone hbefore

theorem nodup_of_losesNothing (h : v.Counts) {named : List Nat} (hnodup : named.Nodup)
    (hnamed : ∀ n ∈ named, n ≤ v.db.sequence.issued) {ops : List VolumeOp}
    (hroom : v.db.sequence.issued + ops.length < 2 ^ 40) {hist : List (VolumeOp × List Gid)}
    (hexec : Machine.exec (step cfg) v ops = .ok (v', hist)) (hloses : LosesNothing cfg v ops) :
    (named ++ nums hist).Nodup := by
  induction ops generalizing v named hist with
  | nil =>
      cases hexec
      rw [nums, List.flatMap_nil, List.map_nil, List.append_nil]
      exact hnodup
  | cons op ops ih =>
      obtain ⟨v₁, ids, rest, hdraws, hcounts, hroom₁, hone, hrest, rfl⟩ := exec_cons h hroom hexec
      have hnext : v.db.sequence.issued + 1 < 2 ^ 40 := by
        rw [List.length_cons] at hroom
        omega
      rw [nums_cons, ← List.append_assoc]
      by_cases hcrash : ∃ db, op = .crash db
      · obtain ⟨db, rfl⟩ := hcrash
        cases hdraws with
        | none hop => exact absurd rfl (hop db)
        | one hop => exact absurd rfl (hop db)
        | lost =>
            rw [List.map_nil, List.append_nil]
            by_cases hbehind : v.file.issued = v.db.sequence.issued
            · refine ih hcounts hnodup ?_ hroom₁ hrest (hloses.tail hone)
              rw [← hbehind] at hnamed
              exact hnamed
            · -- nothing is named any more
              have hnone := hloses [] db ops v v' [] rest rfl rfl hbehind hrest
              rw [nums, hnone, List.map_nil, List.append_nil]
              exact hnodup
      · refine ih hcounts ?_ ?_ hroom₁ hrest (hloses.tail hone)
        · rcases hdraws.counted h hnext (fun db hdb => hcrash ⟨db, hdb⟩) with ⟨hnumbers, -, -⟩ | ⟨hnumbers, -, -⟩
          · rw [hnumbers, List.append_nil]
            exact hnodup
          · rw [hnumbers]
            refine List.nodup_append.mpr ⟨hnodup, List.nodup_singleton _, fun n hn m hm => ?_⟩
            rw [List.mem_singleton.mp hm]
            have hle := hnamed n hn
            omega
        · intro n hn
          rcases hdraws.counted h hnext (fun db hdb => hcrash ⟨db, hdb⟩) with
            ⟨hnumbers, hlive, -⟩ | ⟨hnumbers, hlive, -⟩
          · rw [hnumbers, List.append_nil] at hn
            rw [hlive]
            exact hnamed n hn
          · rw [hnumbers] at hn
            rcases List.mem_append.mp hn with hold | hlast
            · exact (hnamed n hold).trans (by omega)
            · rw [List.mem_singleton.mp hlast, hlive]

/-- **Two files never get one name, unless the file of the sequence was behind.** In every run with crashes, from
a sequence that the file has: the names of the files are pairwise different if and only if nothing is named any more
after a crash that finds the file of the sequence behind. -/
theorem names_nodup_iff (hplain : v.db.sequence.Plain) (hfile : v.file = v.db.sequence) {ops : List VolumeOp}
    (hroom : v.db.sequence.issued + ops.length < 2 ^ 40) {hist : List (VolumeOp × List Gid)}
    (hexec : Machine.exec (step cfg) v ops = .ok (v', hist)) :
    (hist.flatMap Prod.snd).Nodup ↔ LosesNothing cfg v ops := by
  have hcounts : v.Counts := ⟨hplain, hfile ▸ hplain, by rw [hfile]⟩
  have hnums : (nums hist).Nodup ↔ (hist.flatMap Prod.snd).Nodup :=
    List.nodup_map_iff fun _ _ h => Gid.num_injective h
  rw [← hnums]
  constructor
  · intro hnodup before db after v₁ v₂ hist₁ hist₂ hops hbefore hbehind hafter
    by_contra hnamed
    subst hops
    have hcrash : Machine.exec (step cfg) v₁ (.crash db :: after) = .ok (v₂, (.crash db, []) :: hist₂) :=
      Machine.exec_cons_eq_ok.mpr ⟨_, _, _, rfl, hafter, rfl⟩
    rw [Machine.exec_append hbefore hcrash] at hexec
    cases hexec
    have hlength : (before ++ VolumeOp.crash db :: after).length = before.length + (after.length + 1) := by simp
    obtain ⟨hcounts₁, hle, hlost⟩ := named_of_behind hcounts (fun n hlow hhigh => absurd hhigh
      (Nat.not_le.mpr (hfile ▸ hlow))) (by omega) hbefore
    have hlow := hcounts₁.behind
    have hfirst : v₁.file.issued + 1 ∈ nums hist₂ := by
      refine first_named (v := ⟨{ db with sequence := v₁.file }, v₁.file⟩) ⟨hcounts₁.file, hcounts₁.file, Nat.le_refl _⟩
        rfl ?_ hafter ?_
      · show v₁.file.issued + after.length < 2 ^ 40
        omega
      · intro hnone
        exact hnamed (List.map_eq_nil_iff.mp hnone)
    have hbefore' := hlost (v₁.file.issued + 1) (by omega) (by omega)
    rw [List.nil_append] at hbefore'
    rw [nums_append, nums_cons, List.map_nil, List.nil_append] at hnodup
    exact (List.nodup_append.mp hnodup).2.2 _ hbefore' _ hfirst rfl
  · intro hloses
    have hnodup := nodup_of_losesNothing hcounts List.nodup_nil (fun n hn => absurd hn List.not_mem_nil) hroom hexec hloses
    exact hnodup

/-! ### A catalog that is created and lost -/

section

open Execute

def newVolume : Volume := ⟨newCluster.db, newCluster.db.sequence⟩

/-- The second catalog gets the file of the first one. -/
theorem names_nodup_iff_catalogs :
    ∃ v hist, Machine.exec (step ⟨.debug, 4096⟩) newVolume
        [.createCatalog [100], .crash newCluster.db, .createCatalog [101]] = .ok (v, hist)
      ∧ hist.flatMap Prod.snd = [⟨1⟩, ⟨1⟩]
      ∧ ((hist.flatMap Prod.snd).Nodup ↔ LosesNothing ⟨.debug, 4096⟩ newVolume
        [.createCatalog [100], .crash newCluster.db, .createCatalog [101]]) := by
  obtain ⟨v, hist, hexec, hnames⟩ : ∃ v hist, Machine.exec (step ⟨.debug, 4096⟩) newVolume
      [.createCatalog [100], .crash newCluster.db, .createCatalog [101]] = .ok (v, hist)
      ∧ hist.flatMap Prod.snd = [⟨1⟩, ⟨1⟩] := ⟨_, _, rfl, rfl⟩
  have hplain : newVolume.db.sequence.Plain := ⟨rfl, rfl, fun _ => rfl, fun h => absurd rfl h⟩
  exact ⟨v, hist, hexec, hnames, names_nodup_iff hplain rfl (by decide) hexec⟩

end

end Volume

end Scroller
