import Scroller.Proof.MeshAlloc
import Scroller.Proof.TranIds

/-!
# The tables of a database

Every row of `relation` stands for a table with a header page and, from its first `INSERT` on, a mesh of data
pages. While fewer than `2 ^ 40` ids were given out no page belongs to two tables.
-/

namespace Scroller

/-- A header page of a table with versions. -/
structure Grid.HeaderPage (g : Grid) : Prop where
  occupied : g.occupied ≤ g.rown
  versions : 2 ≤ g.occupied
  tminName : (g.columns tminIdx).name = tminName
  tminType : (g.columns tminIdx).type = tTranid
  tmaxName : (g.columns tmaxIdx).name = tmaxName
  tmaxType : (g.columns tmaxIdx).type = tTranid
  types : ∀ i, i < g.occupied → (g.columns i).type.group ≠ .unknown

namespace RelationRow

/-- The ids that a row names. -/
def Names (row : RelationRow) (g : Gid) : Prop :=
  g = row.header ∨ row.dataGid ≠ 0 ∧ g = row.data

/-- The pages of a table. -/
def Owns (row : RelationRow) (g : Gid) : Prop :=
  row.Names g ∨ row.dataGid ≠ 0 ∧ g = row.data.successor

/-- The ids of a table. -/
def gids (row : RelationRow) : GidPair := ⟨row.header, row.data⟩

end RelationRow

namespace Db

/-- The table that a row of `relation` stands for. -/
structure IsTable (cfg : Config) (db : Db) (row : RelationRow) : Prop where
  names : ∀ g, row.Names g → 0 < g.num ∧ g.num ≤ db.sequence.issued
  header : (db.pages row.header).HeaderPage
  tail : row.tailGid = row.dataGid
  data : row.dataGid ≠ 0 →
    row.header ≠ row.data ∧ db.IsMesh cfg (db.pages row.header) row.data

/-- The tables of a database are apart from each other. -/
structure Tables (cfg : Config) (db : Db) : Prop where
  table : ∀ (i : Nat) row, db.relation.rows[i]? = some row → db.IsTable cfg row
  apart : ∀ (i j : Nat) row row', db.relation.rows[i]? = some row → db.relation.rows[j]? = some row' → i ≠ j →
    ∀ g, row.Names g → ¬ row'.Names g

/-- What holds of the database at any time: sequences count, and the tables are in order as long as the ids
fill the field of a file id. -/
structure Laid (cfg : Config) (db : Db) : Prop where
  sequence : db.sequence.Plain
  catalog : db.trans.Plain
  tables : db.sequence.issued < 2 ^ 40 → db.Tables cfg

variable {cfg : Config} {db db' : Db} {row row' : RelationRow}

/-! ### Pages of one table -/

theorem IsMesh.congr {header : Grid} {data : Gid} (h : db.IsMesh cfg header data)
    (hdata : db'.pages data = db.pages data)
    (hnext : db'.pages data.successor = db.pages data.successor) : db'.IsMesh cfg header data where
  page := by
    rw [hdata]
    exact h.page
  next := by
    rcases h.next with hlast | hsecond
    · left
      rwa [hdata]
    · right
      exact {
        next := by rw [hdata, hsecond.next]
        full := by rw [hdata, hsecond.full]
        page := by
          rw [hnext]
          exact hsecond.page
        last := by rw [hnext, hsecond.last]
        single := by rw [hnext, hsecond.single] }

theorem IsTable.congr (h : db.IsTable cfg row) (hissued : db.sequence.issued ≤ db'.sequence.issued)
    (hpages : ∀ g, row.Owns g → db'.pages g = db.pages g) : db'.IsTable cfg row where
  names g hg := ⟨(h.names g hg).1, (h.names g hg).2.trans hissued⟩
  header := by
    rw [hpages _ (Or.inl (Or.inl rfl))]
    exact h.header
  tail := h.tail
  data hdata := by
    obtain ⟨hne, hmesh⟩ := h.data hdata
    refine ⟨hne, ?_⟩
    rw [hpages _ (Or.inl (Or.inl rfl))]
    exact hmesh.congr (hpages _ (Or.inl (Or.inr ⟨hdata, rfl⟩))) (hpages _ (Or.inr ⟨hdata, rfl⟩))

theorem IsTable.num_lt (h : db.IsTable cfg row) (hissued : db.sequence.issued < 2 ^ 40) {g : Gid}
    (hg : row.Names g) : g.num < 2 ^ 40 :=
  Nat.lt_of_le_of_lt (h.names g hg).2 hissued

theorem IsTable.ne_undef (h : db.IsTable cfg row) {g : Gid} (hg : row.Names g) : g ≠ .undef := by
  intro heq
  have hpos := (h.names g hg).1
  rw [heq, Gid.undef_num] at hpos
  omega

theorem IsTable.apart (h : db.IsTable cfg row) (hissued : db.sequence.issued < 2 ^ 40)
    (hdata : row.dataGid ≠ 0) : row.gids.Apart where
  header := h.ne_undef (Or.inl rfl)
  headerFile := h.num_lt hissued (Or.inl rfl)
  data := h.ne_undef (Or.inr ⟨hdata, rfl⟩)
  dataFile := h.num_lt hissued (Or.inr ⟨hdata, rfl⟩)
  ne := (h.data hdata).1

/-- A page that no table was given is not a page of the table. -/
theorem IsTable.not_owns_fresh (h : db.IsTable cfg row) (hissued : db.sequence.issued < 2 ^ 40)
    {g : Gid} (hg : db.sequence.issued < g.num) (hfile : g.num < 2 ^ 40) : ¬ row.Owns g := by
  rintro (hnames | ⟨hdata, rfl⟩)
  · have := (h.names g hnames).2
    omega
  · have hnum := Gid.num_successor (h.num_lt hissued (Or.inr ⟨hdata, rfl⟩))
    omega

theorem IsTable.not_owns (h : db.IsTable cfg row) (h' : db.IsTable cfg row')
    (hissued : db.sequence.issued < 2 ^ 40) (hapart : ∀ g, row.Names g → ¬ row'.Names g) {g : Gid}
    (hg : row.Owns g) : ¬ row'.Owns g := by
  rcases hg with hnames | ⟨hdata, rfl⟩
  · rintro (hnames' | ⟨hdata', rfl⟩)
    · exact hapart g hnames hnames'
    · have hnum := Gid.num_successor (h'.num_lt hissued (Or.inr ⟨hdata', rfl⟩))
      have := h.num_lt hissued hnames
      omega
  · have hnum := Gid.num_successor (h.num_lt hissued (Or.inr ⟨hdata, rfl⟩))
    rintro (hnames' | ⟨hdata', heq⟩)
    · have := h'.num_lt hissued hnames'
      omega
    · have hnum' := Gid.num_successor (h'.num_lt hissued (Or.inr ⟨hdata', rfl⟩))
      have hsame : row.data = row'.data := by
        apply Gid.num_injective
        rw [heq] at hnum
        omega
      exact hapart row.data (Or.inr ⟨hdata, rfl⟩) (Or.inr ⟨hdata', hsame⟩)

/-! ### All tables -/

namespace Tables

variable (h : db.Tables cfg)
include h

theorem congr (hrows : db'.relation.rows = db.relation.rows) (hpages : db'.pages = db.pages)
    (hissued : db.sequence.issued ≤ db'.sequence.issued) : db'.Tables cfg where
  table i row hrow := by
    rw [hrows] at hrow
    exact (h.table i row hrow).congr hissued fun g _ => by rw [hpages]
  apart := by
    rw [hrows]
    exact h.apart

theorem replace {i : Nat} (hrow : db.relation.rows[i]? = some row)
    (hrows : db'.relation.rows = db.relation.rows.set i row')
    (hissued : db.sequence.issued ≤ db'.sequence.issued) (hbound : db.sequence.issued < 2 ^ 40)
    (hpages : ∀ g, ¬ row.Owns g → g.num ≤ db.sequence.issued ∨ 2 ^ 40 ≤ g.num →
      db'.pages g = db.pages g)
    (htable : db'.IsTable cfg row')
    (hnames : ∀ g, row'.Names g → row.Names g ∨ db.sequence.issued < g.num) : db'.Tables cfg := by
  have hold := h.table i row hrow
  have hother : ∀ j row₁, j ≠ i → db.relation.rows[j]? = some row₁ → db'.IsTable cfg row₁ := by
    intro j row₁ hj hrow₁
    have hrow₁Table := h.table j row₁ hrow₁
    refine hrow₁Table.congr hissued fun g hg => hpages g ?_ ?_
    · exact hrow₁Table.not_owns hold hbound (h.apart j i row₁ row hrow₁ hrow hj) hg
    · rcases hg with hg | ⟨hdata, rfl⟩
      · exact Or.inl (hrow₁Table.names g hg).2
      · have hnum := Gid.num_successor (hrow₁Table.num_lt hbound (Or.inr ⟨hdata, rfl⟩))
        exact Or.inr (by omega)
  have hlt : i < db.relation.rows.length := (List.getElem?_eq_some_iff.mp hrow).1
  have hget : ∀ j row₁, db'.relation.rows[j]? = some row₁ →
      j = i ∧ row₁ = row' ∨ j ≠ i ∧ db.relation.rows[j]? = some row₁ := by
    intro j row₁ hj
    rw [hrows, List.getElem?_set] at hj
    by_cases hji : i = j
    · rw [if_pos hji, if_pos hlt] at hj
      cases hj
      exact Or.inl ⟨hji.symm, rfl⟩
    · rw [if_neg hji] at hj
      exact Or.inr ⟨fun heq => hji heq.symm, hj⟩
  have hnew : ∀ j row₁, j ≠ i → db.relation.rows[j]? = some row₁ → ∀ g, row'.Names g →
      ¬ row₁.Names g := by
    intro j row₁ hj hrow₁ g hg hg₁
    rcases hnames g hg with hg | hg
    · exact h.apart i j row row₁ hrow hrow₁ (fun heq => hj heq.symm) g hg hg₁
    · have := ((h.table j row₁ hrow₁).names g hg₁).2
      omega
  constructor
  · intro j row₁ hrow₁
    rcases hget j row₁ hrow₁ with ⟨-, rfl⟩ | ⟨hj, hrow₁⟩
    · exact htable
    · exact hother j row₁ hj hrow₁
  · intro j k row₁ row₂ hrow₁ hrow₂ hjk g hg₁ hg₂
    rcases hget j row₁ hrow₁ with ⟨rfl, rfl⟩ | ⟨hj, hrow₁⟩
    · rcases hget k row₂ hrow₂ with ⟨rfl, -⟩ | ⟨hk, hrow₂⟩
      · exact hjk rfl
      · exact hnew k row₂ hk hrow₂ g hg₁ hg₂
    · rcases hget k row₂ hrow₂ with ⟨rfl, rfl⟩ | ⟨-, hrow₂⟩
      · exact hnew j row₁ hj hrow₁ g hg₂ hg₁
      · exact h.apart j k row₁ row₂ hrow₁ hrow₂ hjk g hg₁ hg₂

theorem setPage_fresh {g : Gid} (hbound : db.sequence.issued < 2 ^ 40)
    (hg : db.sequence.issued < g.num) (hfile : g.num < 2 ^ 40) (grid : Grid) :
    (db.setPage g grid).Tables cfg where
  table i row hrow := by
    have htable := h.table i row hrow
    refine htable.congr (Nat.le_refl _) fun g' hg' => pages_setPage_of_ne db grid ?_
    rintro rfl
    exact htable.not_owns_fresh hbound hg hfile hg'
  apart := h.apart

theorem append {n : Nat} (hrows : db'.relation.rows = db.relation.rows.take n ++ [row'])
    (hissued : db.sequence.issued ≤ db'.sequence.issued) (hpages : db'.pages = db.pages)
    (htable : db'.IsTable cfg row') (hnames : ∀ g, row'.Names g → db.sequence.issued < g.num)  :
    db'.Tables cfg := by
  have hget : ∀ j row₁, db'.relation.rows[j]? = some row₁ →
      j = (db.relation.rows.take n).length ∧ row₁ = row'
        ∨ j < (db.relation.rows.take n).length ∧ db.relation.rows[j]? = some row₁ := by
    intro j row₁ hj
    rw [hrows] at hj
    by_cases hlt : j < (db.relation.rows.take n).length
    · rw [List.getElem?_append_left hlt] at hj
      refine Or.inr ⟨hlt, ?_⟩
      rw [List.length_take] at hlt
      rwa [List.getElem?_take_of_lt (by omega)] at hj
    · rw [List.getElem?_append_right (Nat.le_of_not_lt hlt), List.getElem?_singleton] at hj
      split at hj
      · cases hj
        exact Or.inl ⟨by omega, rfl⟩
      · cases hj
  have hnew : ∀ (j : Nat) row₁, db.relation.rows[j]? = some row₁ → ∀ g, row'.Names g → ¬ row₁.Names g := by
    intro j row₁ hrow₁ g hg hg₁
    have := hnames g hg
    have := ((h.table j row₁ hrow₁).names g hg₁).2
    omega
  constructor
  · intro j row₁ hrow₁
    rcases hget j row₁ hrow₁ with ⟨-, rfl⟩ | ⟨-, hrow₁⟩
    · exact htable
    · exact (h.table j row₁ hrow₁).congr hissued fun g _ => by rw [hpages]
  · intro j k row₁ row₂ hrow₁ hrow₂ hjk g hg₁ hg₂
    rcases hget j row₁ hrow₁ with ⟨rfl, rfl⟩ | ⟨hj, hrow₁⟩
    · rcases hget k row₂ hrow₂ with ⟨rfl, -⟩ | ⟨-, hrow₂⟩
      · exact hjk rfl
      · exact hnew k row₂ hrow₂ g hg₁ hg₂
    · rcases hget k row₂ hrow₂ with ⟨rfl, rfl⟩ | ⟨-, hrow₂⟩
      · exact hnew j row₁ hrow₁ g hg₂ hg₁
      · exact h.apart j k row₁ row₂ hrow₁ hrow₂ hjk g hg₁ hg₂

theorem mesh {i : Nat} (hrow : db.relation.rows[i]? = some row) (hdata : row.dataGid ≠ 0)
    (hbound : db.sequence.issued < 2 ^ 40) (hsame : db.SameBut db' row.data)
    (hmesh : db'.IsMesh cfg (db.pages row.header) row.data) : db'.Tables cfg := by
  have htable := h.table i row hrow
  have happart := htable.apart hbound hdata
  have hheader : db'.pages row.header = db.pages row.header :=
    hsame.pages _ happart.ne happart.header_ne_successor
  have hissued : db.sequence.issued ≤ db'.sequence.issued := by rw [hsame.sequence]
  have hrows : db'.relation.rows = db.relation.rows.set i row := by
    obtain ⟨hlt, hget⟩ := List.getElem?_eq_some_iff.mp hrow
    rw [hsame.relation, ← hget, List.set_getElem_self]
  refine h.replace hrow hrows hissued hbound ?_ ?_ fun g hg => Or.inl hg
  · intro g hg _
    apply hsame.pages
    · rintro rfl
      exact hg (Or.inl (Or.inr ⟨hdata, rfl⟩))
    · rintro rfl
      exact hg (Or.inr ⟨hdata, rfl⟩)
  · exact {
      names := fun g hg => ⟨(htable.names g hg).1, (htable.names g hg).2.trans hissued⟩
      header := by
        rw [hheader]
        exact htable.header
      tail := htable.tail
      data := fun _ => ⟨happart.ne, by rwa [hheader]⟩ }

end Tables

end Db

end Scroller
