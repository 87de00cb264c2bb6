import Scroller.Proof.HeaderLines

/-!
# The calls decode the stream

What a call of the client library answers is what the decoder reads off the stream. This needs every header
line to be read without compaction, and every column to be announced with at least the size of the struct: a
shorter one is copied together with bytes behind it, which may not have arrived.
-/

namespace Scroller

open ByteMemory

namespace ScrcConnection

/-- `recv_header_line` reads a line without compacting the buffer. -/
def HeaderLineKept (conn : ScrcConnection) : Prop :=
  match conn.recvBlock 1 with
  | .ok (conn, .ok start) =>
      ¬ (conn.rbuf start = 58 ∨ conn.rbuf start = 10) → LineKept (headerMax - 2) conn start
  | _ => True

/-- So does `recv_header` with each of its lines. -/
def HeaderKept : Nat → ScrcConnection → Prop
  | 0, _ => True
  | fuel + 1, conn =>
      conn.HeaderLineKept ∧
        ∀ conn' hl name value body, conn.recvHeaderLine = .ok (conn', .ok hl) →
          cString conn'.rbuf hl.name = .ok name → readValue conn'.rbuf name hl.value = .ok value →
          headerStep name value conn'.body = .ok body → HeaderKept fuel { conn' with body }

/-- Every column is announced with at least the size of the struct. -/
def ColumnsKept : Nat → ScrcConnection → Prop
  | 0, _ => True
  | fuel + 1, conn =>
      ∀ conn' row size, conn.recvRow = .ok (conn', .ok (row, size)) →
        sizeofColumn ≤ size
          ∧ ColumnsKept fuel
              { conn' with columns := conn'.columns ++ [slice conn'.rbuf row sizeofColumn] }

/-- A query that gets as far as its response reads the header lines and the columns so. -/
def QueryKept (conn : ScrcConnection) (query : Option (List UInt8)) (sent : UInt32) : Prop :=
  conn.status = scrcOk → ∀ q, query = some q → (if q = [] then scrcOk else sent) = scrcOk →
    HeaderKept (conn.left + 1) { conn with columns := [], body := false }
      ∧ ∀ conn₁ conn₂, recvHeader { conn with columns := [] } = .ok (conn₁, scrcOk) →
          conn₁.body = true → conn₁.recvCmd = .ok (conn₂, .ok scrcCmdTabheader) →
          ColumnsKept (conn₂.left + 1) conn₂

/-! ### What the decoder leaves of a stream -/

theorem length_lineLoop_le (room : Nat) (s cur : List UInt8) (name : Option (List UInt8)) :
    (Decoder.lineLoop room s cur name).2.length ≤ s.length := by
  induction room generalizing s cur name with
  | zero => exact Nat.le_refl _
  | succ room ih =>
      cases s with
      | nil => exact Nat.le_refl _
      | cons b s =>
          simp only [Decoder.lineLoop]
          split
          · exact (ih s _ _).trans (Nat.le_succ _)
          · split
            · cases name <;> exact Nat.le_succ _
            · exact (ih s _ _).trans (Nat.le_succ _)

theorem length_line_lt {s rest : List UInt8} {l : List UInt8 × Option (List UInt8)}
    (h : Decoder.line s = (.ok l, rest)) : rest.length < s.length := by
  cases s with
  | nil => cases h
  | cons b s =>
      rw [Decoder.line] at h
      split at h
      · cases h
      · have hle := length_lineLoop_le (headerMax - 2) s [b] none
        rw [h] at hle
        exact Nat.lt_succ_of_le hle

theorem length_block_le (n : Nat) (s : List UInt8) : (Decoder.block n s).2.length ≤ s.length := by
  unfold Decoder.block
  split
  · exact Nat.le_refl _
  · split
    · exact Nat.le_refl _
    · rw [List.length_drop]
      exact Nat.sub_le _ _

theorem length_row_lt {s rest bytes : List UInt8} (h : Decoder.row s = (.ok bytes, rest)) :
    rest.length < s.length := by
  rw [Decoder.row, Decoder.cmd] at h
  by_cases hlen : s.length < sizeofScrcCmd
  · have hfits : ¬ bufsz < sizeofScrcCmd := by decide
    rw [Decoder.block, if_neg hfits, if_pos hlen] at h
    simp only at h
    split at h
    · cases h
    · split at h
      · cases h
      · rename_i hrow
        exact absurd (show (0 : UInt32) ≠ scrcCmdRow by decide) hrow
  · have hfits : ¬ bufsz < sizeofScrcCmd := by decide
    have hcmd : Decoder.block sizeofScrcCmd s = (.ok (s.take sizeofScrcCmd), s.drop sizeofScrcCmd) := by
      rw [Decoder.block, if_neg hfits, if_neg hlen]
    rw [hcmd] at h
    have hdrop : (s.drop sizeofScrcCmd).length < s.length := by
      rw [List.length_drop]
      have hpos : 0 < sizeofScrcCmd := by decide
      omega
    simp only at h
    split at h
    · cases h
    · split at h
      · cases h
      · have hsize := length_block_le sizeofSizeT (s.drop sizeofScrcCmd)
        generalize Decoder.block sizeofSizeT (s.drop sizeofScrcCmd) = decoded at h hsize
        obtain ⟨ret | bytes', rest'⟩ := decoded
        · cases h
        · have hbody := length_block_le (LittleEndian.ofBytes bytes') rest'
          simp only at h
          rw [h] at hbody
          exact Nat.lt_of_le_of_lt (hbody.trans hsize) hdrop

/-! ### The calls -/

section Calls

variable {conn : ScrcConnection}

theorem recvHeaderLine_decodes (h : conn.Healthy) (hkept : conn.HeaderLineKept) :
    ∃ conn' r, conn.recvHeaderLine = .ok (conn', r) ∧ Unchanged conn conn'
      ∧ conn'.view = (Decoder.line conn.view).2
      ∧ LineAgrees conn'.rbuf r (Decoder.line conn.view).1 := by
  obtain ⟨conn₁, r, hblock, hunchanged, hview, hbytes, hend⟩ := recvBlock_decodes h 1
  rw [HeaderLineKept, hblock] at hkept
  rw [recvHeaderLine, hblock]
  have hone : ¬ bufsz < 1 := by decide
  rw [Decoder.block, if_neg hone] at hview hbytes
  cases hstream : conn.view with
  | nil =>
      rw [hstream, if_pos (show ([] : List UInt8).length < 1 from Nat.zero_lt_one)] at hview hbytes
      cases r with
      | ok p => cases hbytes
      | error ret =>
          cases hbytes
          exact ⟨conn₁, _, rfl, hunchanged, hview, rfl⟩
  | cons b rest =>
      rw [hstream, if_neg (show ¬ (b :: rest).length < 1 by simp)] at hview hbytes
      cases r with
      | error ret => cases hbytes
      | ok p =>
          have hslice : slice conn₁.rbuf p 1 = [b] := Except.ok.inj hbytes
          have hb : conn₁.rbuf p = b := by
            rw [slice_succ] at hslice
            exact (List.cons.inj hslice).1
          have hpos := hend p rfl
          have hrest : conn₁.view = rest := hview
          simp only [bind, Except.bind, Decoder.line, hb] at hkept ⊢
          by_cases hdelim : b = 58 ∨ b = 10
          · rw [if_pos hdelim, if_pos hdelim]
            exact ⟨conn₁, _, rfl, hunchanged, hrest, rfl⟩
          · rw [if_neg hdelim, if_neg hdelim]
            obtain ⟨conn', r', hloop, hunchanged', hview', hagrees⟩ :=
              @headerLineLoop_decodes conn₁ (headerMax - 2) p none none [b] hunchanged.healthy
                (hkept hdelim) (by omega) (by rw [← hpos, Nat.add_sub_cancel_left, hslice])
                (by simpa using fun hten => hdelim (Or.inr hten))
                ⟨trivial, fun _ hp => by cases hp⟩
            rw [hrest] at hview' hagrees
            exact ⟨conn', r', hloop, hunchanged.trans hunchanged', hview', hagrees⟩

theorem readValue_of_pointsAt {rbuf : Nat → UInt8} {p : Option Nat} {value : Option (List UInt8)}
    (h : PointsAt rbuf p value) (name : List UInt8) (body : Bool) :
    ∃ value', readValue rbuf name p = .ok value'
      ∧ headerStep name value' body = headerStep name value body := by
  cases p with
  | none =>
      cases value with
      | none => exact ⟨none, rfl, rfl⟩
      | some value => exact h.elim
  | some p =>
      cases value with
      | none => exact h.elim
      | some value =>
          have hstring : cString rbuf p = .ok value := h
          by_cases hname : name = ascii "Status" ∨ name = ascii "Body"
          · refine ⟨some value, ?_, rfl⟩
            rw [readValue, if_pos hname, hstring]
            rfl
          · refine ⟨none, by rw [readValue, if_neg hname]; rfl, ?_⟩
            rw [not_or] at hname
            simp only [headerStep, if_neg hname.1, if_neg hname.2]

theorem headerLoop_decodes (fuel : Nat) (h : conn.Healthy) (hkept : HeaderKept fuel conn)
    (hfuel : conn.view.length < fuel) :
    ∃ conn', headerLoop fuel conn = .ok (conn', (Decoder.headerLoop fuel conn.body conn.view).1)
      ∧ conn'.Healthy ∧ conn'.status = conn.status ∧ conn'.columns = conn.columns
      ∧ conn'.body = (Decoder.headerLoop fuel conn.body conn.view).2.1
      ∧ conn'.view = (Decoder.headerLoop fuel conn.body conn.view).2.2 := by
  induction fuel generalizing conn with
  | zero => exact absurd hfuel (Nat.not_lt_zero _)
  | succ fuel ih =>
      obtain ⟨conn₁, r, hline, hunchanged, hview, hagrees⟩ := recvHeaderLine_decodes h hkept.1
      have hlt : ∀ l rest, Decoder.line conn.view = (.ok l, rest) →
          rest.length < conn.view.length := fun l rest => length_line_lt
      rw [headerLoop, hline, Decoder.headerLoop]
      generalize Decoder.line conn.view = decoded at hview hagrees hlt
      obtain ⟨r', rest⟩ := decoded
      subst hview
      cases r with
      | error ret =>
          cases r' with
          | ok l => exact hagrees.elim
          | error ret' =>
              cases hagrees
              exact ⟨conn₁, rfl, hunchanged.healthy, hunchanged.status, hunchanged.columns,
                hunchanged.body, rfl⟩
      | ok hl =>
          cases r' with
          | error ret' => exact hagrees.elim
          | ok l =>
              obtain ⟨name, value⟩ := l
              obtain ⟨hname, hvalue⟩ := hagrees
              obtain ⟨value', hread, hstep⟩ := readValue_of_pointsAt hvalue name conn₁.body
              simp only [bind, Except.bind, hname, hread, hstep]
              rw [hunchanged.body] at hstep ⊢
              cases hnext : headerStep name value conn.body with
              | error ret =>
                  exact ⟨conn₁, rfl, hunchanged.healthy, hunchanged.status, hunchanged.columns,
                    hunchanged.body, rfl⟩
              | ok body =>
                  rw [hnext] at hstep
                  have hkept' := hkept.2 conn₁ hl name value' body hline hname hread
                    (by rw [hunchanged.body]; exact hstep)
                  have hshort := hlt _ _ rfl
                  obtain ⟨conn', hloop, hhealthy, hstatus, hcolumns, hbody, hview'⟩ :=
                    @ih { conn₁ with body }
                      ⟨⟨hunchanged.healthy.bounded.rpos_le, hunchanged.healthy.bounded.rlen_le⟩,
                        hunchanged.healthy.succeeds⟩ hkept' (by
                          show conn₁.view.length < fuel
                          omega)
                  exact ⟨conn', hloop, hhealthy, hstatus.trans hunchanged.status,
                    hcolumns.trans hunchanged.columns, hbody, hview'⟩

theorem columnsLoop_decodes (fuel : Nat) (h : conn.Healthy) (hkept : ColumnsKept fuel conn)
    (hfuel : conn.view.length < fuel) :
    ∃ conn', columnsLoop fuel conn
          = .ok (conn', (Decoder.columnsLoop fuel conn.columns conn.view).1)
      ∧ conn'.Healthy ∧ conn'.body = conn.body
      ∧ conn'.columns = (Decoder.columnsLoop fuel conn.columns conn.view).2.1
      ∧ conn'.view = (Decoder.columnsLoop fuel conn.columns conn.view).2.2 := by
  induction fuel generalizing conn with
  | zero => exact absurd hfuel (Nat.not_lt_zero _)
  | succ fuel ih =>
      obtain ⟨conn₁, r, hrow, hunchanged, hview, hbytes, hend⟩ := recvRow_decodes h
      have hlt : ∀ bytes rest, Decoder.row conn.view = (.ok bytes, rest) →
          rest.length < conn.view.length := fun bytes rest => length_row_lt
      rw [columnsLoop, hrow, Decoder.columnsLoop]
      generalize Decoder.row conn.view = decoded at hview hbytes hlt
      obtain ⟨r', rest⟩ := decoded
      subst hview
      cases r with
      | error ret =>
          cases hbytes
          simp only [bind, Except.bind]
          by_cases hfinished : ret = scrcEnd
          · rw [if_pos hfinished, if_pos hfinished]
            exact ⟨_, rfl, ⟨⟨hunchanged.healthy.bounded.rpos_le, hunchanged.healthy.bounded.rlen_le⟩,
              hunchanged.healthy.succeeds⟩, hunchanged.body, hunchanged.columns, rfl⟩
          · rw [if_neg hfinished, if_neg hfinished]
            exact ⟨conn₁, rfl, hunchanged.healthy, hunchanged.body, hunchanged.columns, rfl⟩
      | ok row =>
          obtain ⟨p, size⟩ := row
          cases hbytes
          obtain ⟨hsize, hkept'⟩ := hkept conn₁ p size hrow
          have hpos : p + size = conn₁.rpos := hend _ rfl
          have hrpos := hunchanged.healthy.bounded.rpos_le
          have hrlen := hunchanged.healthy.bounded.rlen_le
          simp only [bind, Except.bind]
          rw [if_neg (by omega), take_slice _ _ hsize]
          rw [hunchanged.columns] at hkept' ⊢
          have hshort := hlt _ _ rfl
          obtain ⟨conn', hloop, hhealthy, hbody, hcolumns, hview'⟩ :=
            @ih { conn₁ with columns := conn.columns ++ [slice conn₁.rbuf p sizeofColumn] }
              ⟨⟨hrpos, hrlen⟩, hunchanged.healthy.succeeds⟩ hkept' (by
                show conn₁.view.length < fuel
                omega)
          exact ⟨conn', hloop, hhealthy, hbody.trans hunchanged.body, hcolumns, hview'⟩

/-- The connection knows what the decoder knows. -/
structure Agrees (conn : ScrcConnection) (d : Decoder) : Prop where
  healthy : conn.Healthy
  view : conn.view = d.stream
  status : conn.status = d.status
  columns : conn.columns = d.columns
  body : conn.body = d.body

variable {d : Decoder}

/-- `return conn->status = ret` on both sides. -/
theorem Agrees.finish (h : Agrees conn d) (ret : UInt32) :
    Agrees (conn.finish ret).1 (d.finish ret).1 :=
  ⟨⟨⟨h.healthy.bounded.rpos_le, h.healthy.bounded.rlen_le⟩, h.healthy.succeeds⟩, h.view, rfl, h.columns,
    h.body⟩

/-- A read that changes nothing a caller knows takes the decoder to the rest of the stream. -/
theorem Agrees.read (h : Agrees conn d) {conn' : ScrcConnection} (hunchanged : Unchanged conn conn')
    {stream : List UInt8} (hview : conn'.view = stream) : Agrees conn' { d with stream } :=
  ⟨hunchanged.healthy, hview, hunchanged.status.trans h.status, hunchanged.columns.trans h.columns,
    hunchanged.body.trans h.body⟩

theorem recvTable_decodes (h : Agrees conn d)
    (hkept : ∀ conn', conn.recvCmd = .ok (conn', .ok scrcCmdTabheader) →
      ColumnsKept (conn'.left + 1) conn') :
    ∃ conn', conn.recvTable = .ok (conn', d.table.2) ∧ Agrees conn' d.table.1 := by
  obtain ⟨conn₁, r, hcmd, hunchanged, hview, rfl⟩ := recvCmd_decodes h.healthy
  rw [h.view] at hcmd hview
  rw [recvTable, hcmd, Decoder.table]
  generalize Decoder.cmd d.stream = decoded at hview hcmd
  obtain ⟨ret | c, rest⟩ := decoded
  · exact ⟨_, rfl, (h.read hunchanged hview).finish ret⟩
  · simp only [bind, Except.bind]
    by_cases htab : c ≠ scrcCmdTabheader
    · rw [if_pos htab, if_pos htab]
      exact ⟨_, rfl, (h.read hunchanged hview).finish _⟩
    · rw [if_neg htab, if_neg htab]
      rw [not_not.mp htab] at hcmd
      have hlen : conn₁.left = rest.length := by rw [← length_view, hview]
      obtain ⟨conn₂, hloop, hhealthy₂, hbody₂, hcolumns₂, hview₂⟩ := columnsLoop_decodes
        (conn₁.left + 1) hunchanged.healthy (hkept conn₁ hcmd)
        (by rw [length_view]; exact Nat.lt_succ_self _)
      rw [hlen, hview, hunchanged.columns, h.columns] at hloop hcolumns₂ hview₂
      rw [hlen, hloop]
      generalize Decoder.columnsLoop (rest.length + 1) d.columns rest = decoded₂ at hcolumns₂ hview₂
      obtain ⟨r₂, columns, rest₂⟩ := decoded₂
      cases r₂ with
      | error ret =>
          exact ⟨_, rfl, ⟨⟨hhealthy₂.bounded.rpos_le, hhealthy₂.bounded.rlen_le⟩, hhealthy₂.succeeds⟩,
            hview₂, rfl, hcolumns₂, (hbody₂.trans hunchanged.body).trans h.body⟩
      | ok _ =>
          obtain ⟨conn₃, r₃, hcmd₃, hunchanged₃, hview₃, rfl⟩ := recvCmd_decodes hhealthy₂
          rw [hview₂] at hcmd₃ hview₃
          simp only [hcmd₃]
          have hstate : ∀ (ret : UInt32) (stream : List UInt8), conn₃.view = stream →
              Agrees (conn₃.finish ret).1 (Decoder.finish { d with columns, stream } ret).1 :=
            fun ret stream hstream =>
              ⟨⟨⟨hunchanged₃.healthy.bounded.rpos_le, hunchanged₃.healthy.bounded.rlen_le⟩,
                hunchanged₃.healthy.succeeds⟩, hstream, rfl, hunchanged₃.columns.trans hcolumns₂,
                hunchanged₃.body.trans ((hbody₂.trans hunchanged.body).trans h.body)⟩
          generalize Decoder.cmd rest₂ = decoded₃ at hview₃
          obtain ⟨ret | c₃, rest₃⟩ := decoded₃
          · exact ⟨_, rfl, hstate ret rest₃ hview₃⟩
          · simp only
            by_cases hdata : c₃ ≠ scrcCmdTabdata
            · rw [if_pos hdata, if_pos hdata]
              exact ⟨_, rfl, hstate _ rest₃ hview₃⟩
            · rw [if_neg hdata, if_neg hdata]
              exact ⟨_, rfl, hstate _ rest₃ hview₃⟩

theorem fetched_table : d.table.1.fetched = d.fetched := by
  unfold Decoder.table
  repeat' split
  all_goals rfl

theorem fetched_query (query : Option (List UInt8)) (sent : UInt32) :
    (d.query query sent).1.fetched = d.fetched := by
  unfold Decoder.query
  split
  · rfl
  · cases query with
    | none => rfl
    | some query =>
        simp only
        repeat' split
        all_goals first | rfl | exact fetched_table

theorem scrcQuery_decodes (h : Agrees conn d) (query : Option (List UInt8)) (sent : UInt32)
    (hkept : conn.QueryKept query sent) :
    ∃ conn', conn.scrcQuery query sent = .ok (conn', (d.query query sent).2)
      ∧ Agrees conn' (d.query query sent).1 := by
  unfold scrcQuery Decoder.query
  by_cases hstatus : conn.status ≠ scrcOk
  · rw [if_pos hstatus, if_pos (by rwa [← h.status]), h.status]
    exact ⟨conn, rfl, h⟩
  · rw [if_neg hstatus, if_neg (by rwa [← h.status])]
    cases query with
    | none => exact ⟨conn, rfl, h⟩
    | some query =>
        have hempty : Agrees { conn with columns := [] } { d with columns := [] } :=
          ⟨⟨⟨h.healthy.bounded.rpos_le, h.healthy.bounded.rlen_le⟩, h.healthy.succeeds⟩, h.view,
            h.status, rfl, h.body⟩
        by_cases hsent : (if query = [] then scrcOk else sent) ≠ scrcOk
        · simp only [if_pos hsent]
          exact ⟨_, rfl, hempty.finish _⟩
        · obtain ⟨hheader, hcolumns⟩ := hkept (not_not.mp hstatus) query rfl (not_not.mp hsent)
          simp only [if_neg hsent, pure, Except.pure, bind, Except.bind]
          obtain ⟨conn₁, hloop, hhealthy₁, hstatus₁, hcolumns₁, hbody₁, hview₁⟩ :=
            @headerLoop_decodes { conn with columns := [], body := false } (conn.left + 1)
              ⟨⟨h.healthy.bounded.rpos_le, h.healthy.bounded.rlen_le⟩, h.healthy.succeeds⟩ hheader
              (by rw [length_view]; exact Nat.lt_succ_self _)
          have hview : view { conn with columns := [], body := false } = d.stream := h.view
          have hlen : conn.left = d.stream.length := by rw [← length_view, h.view]
          rw [hview, hlen] at hloop hbody₁ hview₁
          have hrecv : recvHeader { conn with columns := [] }
              = .ok (conn₁, (Decoder.header d.stream).1) := by
            rw [recvHeader]
            show headerLoop (conn.left + 1) _ = _
            rw [hlen]
            exact hloop
          rw [hrecv]
          have hagrees₁ : Agrees conn₁ { d with
              columns := [], body := (Decoder.header d.stream).2.1,
              stream := (Decoder.header d.stream).2.2 } :=
            ⟨hhealthy₁, hview₁, hstatus₁.trans h.status, hcolumns₁, hbody₁⟩
          generalize Decoder.header d.stream = decoded at hrecv hagrees₁
          obtain ⟨ret, body, rest⟩ := decoded
          simp only at hagrees₁ hrecv ⊢
          by_cases hret : ret ≠ scrcOk
          · rw [if_pos hret, if_pos hret]
            exact ⟨_, rfl, hagrees₁.finish ret⟩
          · rw [if_neg hret, if_neg hret]
            have hbody : conn₁.body = body := hagrees₁.body
            by_cases hnone : body = false
            · rw [if_pos (hbody.trans hnone), if_pos hnone]
              exact ⟨conn₁, rfl, hagrees₁⟩
            · rw [if_neg (by rw [hbody]; exact hnone), if_neg hnone]
              rw [not_not.mp hret] at hrecv
              exact recvTable_decodes hagrees₁ fun conn₂ hcmd =>
                hcolumns conn₁ conn₂ hrecv (hbody.trans (Bool.eq_true_of_not_eq_false hnone)) hcmd

theorem scrcFetchRow_decodes (h : Agrees conn d) :
    ∃ conn' row, conn.scrcFetchRow = .ok (conn', (d.fetchRow).2.1, row)
      ∧ Agrees conn' (d.fetchRow).1
      ∧ (row.map (Option.map fun row => slice conn'.rbuf row.1 row.2)) = (d.fetchRow).2.2
      ∧ (d.fetchRow).1.fetched = match row with
        | none => d.fetched
        | some row => row.isSome := by
  rw [scrcFetchRow, Decoder.fetchRow]
  by_cases hbody : d.body = false
  · rw [if_pos (h.body.trans hbody), if_pos hbody]
    exact ⟨_, none, rfl, ⟨⟨⟨h.healthy.bounded.rpos_le, h.healthy.bounded.rlen_le⟩,
      h.healthy.succeeds⟩, h.view, rfl, h.columns, h.body⟩, rfl, rfl⟩
  · rw [if_neg (by rwa [h.body]), if_neg hbody]
    obtain ⟨conn₁, r, hrow, hunchanged, hview, hbytes, -⟩ := recvRow_decodes h.healthy
    rw [h.view] at hview hbytes
    rw [hrow]
    generalize Decoder.row d.stream = decoded at hview hbytes
    obtain ⟨r', rest⟩ := decoded
    have hagrees : ∀ ret fetched, Agrees { conn₁ with status := ret }
        { d with status := ret, stream := rest, fetched } := fun ret fetched =>
      ⟨⟨⟨hunchanged.healthy.bounded.rpos_le, hunchanged.healthy.bounded.rlen_le⟩,
        hunchanged.healthy.succeeds⟩, hview, rfl, hunchanged.columns.trans h.columns,
        hunchanged.body.trans h.body⟩
    cases r with
    | error ret =>
        cases hbytes
        exact ⟨_, some none, rfl, hagrees _ _, rfl, rfl⟩
    | ok row =>
        cases hbytes
        exact ⟨_, some (some row), rfl, hagrees _ _, rfl, rfl⟩

theorem scrcFetchCell_decodes (h : Agrees conn d) {row : Option Nat}
    (hrow : d.fetched = row.isSome) (n : Nat) :
    ∃ conn' cell, conn.scrcFetchCell row n = (conn', (d.fetchCell n).2.1, cell)
      ∧ Agrees conn' (d.fetchCell n).1
      ∧ (cell.map fun cell => (cell.data.map fun p => p - row.getD 0, cell.size))
        = (d.fetchCell n).2.2
      ∧ (d.fetchCell n).1.fetched = d.fetched := by
  have hagrees : ∀ ret, Agrees { conn with status := ret } { d with status := ret } := fun ret =>
    ⟨⟨⟨h.healthy.bounded.rpos_le, h.healthy.bounded.rlen_le⟩, h.healthy.succeeds⟩,
      h.view, rfl, h.columns, h.body⟩
  unfold scrcFetchCell Decoder.fetchCell
  cases row with
  | none =>
      rw [if_pos (show d.fetched = false from hrow)]
      exact ⟨_, none, rfl, hagrees _, rfl, rfl⟩
  | some row =>
      have hfetched : ¬ d.fetched = false := by
        rw [hrow]
        simp
      have hcolumn : conn.columns[n]? = d.columns[n]? := by rw [h.columns]
      rw [if_neg hfetched]
      simp only [hcolumn]
      cases d.columns[n]? with
      | none => exact ⟨_, _, rfl, hagrees _, rfl, rfl⟩
      | some column =>
          refine ⟨_, _, rfl, hagrees _, ?_, rfl⟩
          simp only [Option.map_some, Option.getD_some, Nat.add_sub_cancel_left]

end Calls

end ScrcConnection

end Scroller
