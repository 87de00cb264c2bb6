import Scroller.Proof.OneResponse
import Scroller.Proof.PacketBoundaries
import Scroller.Proof.SelectResponse

/-!
# Responses that end early

A server that closes the connection inside a response leaves the client with a prefix of it. `recv_block` says
so, and every reader passes it on but `recv_row`: it does not look at the status of `recv_cmd`, and takes the
command that did not come for an unknown one.
-/

namespace Scroller

open Execute LittleEndian

/-- A well-formed response. -/
inductive ServerResponse where
  | status (status : ScrcStatus)
  | body (columns : List Column) (rows : List (Nat × Row))

/-- A call, the bytes of a response it reads, and what it returns. -/
structure Exchange where
  call : Client.Call
  bytes : List UInt8
  reply : Client.Reply

/-- The command word of the piece is read by `recv_row`. -/
def Execute.Piece.readByRow : Piece → Bool
  | .column _ | .row _ _ | .finish => true
  | _ => false

/-- The first `k` bytes of a response end in front of a command word that `recv_row` reads, or inside it. -/
def CutInCommand (rowBytes : Row → List UInt8) : List Piece → Nat → Prop
  | [], _ => False
  | p :: pieces, k =>
      p.readByRow = true ∧ k < sizeofScrcCmd
        ∨ (p.sends rowBytes).flatten.length ≤ k
          ∧ CutInCommand rowBytes pieces (k - (p.sends rowBytes).flatten.length)

instance (rowBytes : Row → List UInt8) : (ps : List Piece) → (k : Nat) → Decidable (CutInCommand rowBytes ps k)
  | [], _ => inferInstanceAs (Decidable False)
  | p :: ps, k =>
      have : Decidable (CutInCommand rowBytes ps (k - (p.sends rowBytes).flatten.length)) :=
        instDecidableCutInCommand rowBytes ps _
      inferInstanceAs (Decidable (_ ∧ _ ∨ _ ∧ _))

namespace ServerResponse

/-- What a body sends before its rows. -/
def head (columns : List Column) : List Piece :=
  [.bodyHeader, .tabheader] ++ columns.map .column ++ [.finish, .tabdata]

def pieces : ServerResponse → List Piece
  | .status st => [.status st]
  | .body columns rows => head columns ++ rowPieces rows ++ [.finish]

theorem oneResponse_iff {sent : List Piece} : OneResponse sent ↔ ∃ r : ServerResponse, r.pieces = sent := by
  constructor
  · rintro (st | ⟨columns, rows⟩)
    · exact ⟨.status st, rfl⟩
    · exact ⟨.body columns rows, rfl⟩
  · rintro ⟨st | ⟨columns, rows⟩, rfl⟩
    · exact .status st
    · exact .body columns rows

/-- Every row has the bytes that are announced, and no more than a block may have. -/
def Fits (rowBytes : Row → List UInt8) : ServerResponse → Prop
  | .status _ => True
  | .body _ rows => ∀ row ∈ rows, (rowBytes row.2).length = row.1 ∧ row.1 ≤ bufsz

/-- What a query and the calls of `scrc_fetch_row` behind it read of a response. The query returns the status of
an error as soon as it has read its line. -/
def exchanges (rowBytes : Row → List UInt8) (query : List UInt8) : ServerResponse → List Exchange
  | .status st =>
      let bytes := if st = .ok then response rowBytes [.status st]
        else (headerInt (ascii "Status") st.number).flatten
      [⟨.query (some query) scrcOk, bytes, ⟨st.number.toUInt32, [], none, none⟩⟩]
  | .body columns rows =>
      let reply (row : Option (Option (List UInt8))) : Client.Reply :=
        ⟨scrcOk, columns.map Column.bytes, row, none⟩
      ⟨.query (some query) scrcOk, response rowBytes (head columns), reply none⟩
        :: rows.map (fun row =>
          ⟨.fetchRow, response rowBytes [.row row.1 row.2], reply (some (some (rowBytes row.2)))⟩)
        ++ [⟨.fetchRow, response rowBytes [.finish], reply (some none)⟩]

end ServerResponse

/-- Where `k` bytes come, every call that has its bytes returns what it has to, and the first one that has not
says that the connection is closed, and returns no row. -/
def Recognises {S : Type} (step : S → Client.Call → Except Fault (S × Client.Reply)) :
    List Exchange → S → Nat → Prop
  | [], _, _ => True
  | e :: es, s, k =>
      ∃ s' reply, step s e.call = .ok (s', reply) ∧
        if e.bytes.length ≤ k then reply = e.reply ∧ Recognises step es s' (k - e.bytes.length)
        else reply.status = scrcConnectionClosed ∧ reply.row.join = none

/-- The columns, and their end. -/
def columnPieces (columns : List Column) : List Piece := columns.map .column ++ [.finish]

/-- What is sent between the header and the rows. -/
def tableHead (columns : List Column) : List Piece := [.tabheader] ++ (columnPieces columns ++ [.tabdata])

theorem head_eq (columns : List Column) :
    ServerResponse.head columns = [.bodyHeader] ++ tableHead columns := by
  simp only [ServerResponse.head, tableHead, columnPieces, List.append_assoc, List.cons_append,
    List.nil_append]

/-! ### Cuts -/

section Cuts

variable {rowBytes : Row → List UInt8} {k : Nat}

theorem length_response_cons (p : Piece) (ps : List Piece) :
    (response rowBytes (p :: ps)).length
      = (p.sends rowBytes).flatten.length + (response rowBytes ps).length := by
  rw [response_cons, List.length_append]

/-- A piece that `recv_row` reads starts with a command. -/
theorem cmd_le_of_readByRow {p : Piece} (h : p.readByRow = true) :
    sizeofScrcCmd ≤ (p.sends rowBytes).flatten.length := by
  have hcmd (c : UInt32) : (cmdBytes c).length = sizeofScrcCmd := length_toBytes _ _
  cases p with
  | column c =>
      rw [Piece.sends, List.flatten_cons, List.length_append, hcmd]
      exact Nat.le_add_right _ _
  | row size r =>
      rw [Piece.sends, List.flatten_cons, List.length_append, hcmd]
      exact Nat.le_add_right _ _
  | finish =>
      rw [Piece.sends, List.flatten_singleton, hcmd]
  | _ => cases h

theorem CutInCommand.lt {ps : List Piece} (h : CutInCommand rowBytes ps k) :
    k < (response rowBytes ps).length := by
  induction ps generalizing k with
  | nil => exact h.elim
  | cons p ps ih =>
      rw [length_response_cons]
      rcases h with ⟨hrow, hlt⟩ | ⟨hle, hcut⟩
      · have hcmd := @cmd_le_of_readByRow rowBytes p hrow
        omega
      · have hlt := ih hcut
        omega

theorem cutInCommand_append {ps qs : List Piece} : CutInCommand rowBytes (ps ++ qs) k
    ↔ CutInCommand rowBytes ps k
      ∨ (response rowBytes ps).length ≤ k ∧ CutInCommand rowBytes qs (k - (response rowBytes ps).length) := by
  induction ps generalizing k with
  | nil => simp [CutInCommand, response]
  | cons p ps ih =>
      rw [List.cons_append, CutInCommand, CutInCommand, ih, length_response_cons]
      constructor
      · rintro (hhere | ⟨hle, hcut | ⟨hle', hcut⟩⟩)
        · exact Or.inl (Or.inl hhere)
        · exact Or.inl (Or.inr ⟨hle, hcut⟩)
        · exact Or.inr ⟨by omega, by rwa [← Nat.sub_sub]⟩
      · rintro ((hhere | ⟨hle, hcut⟩) | ⟨hle, hcut⟩)
        · exact Or.inl hhere
        · exact Or.inr ⟨hle, Or.inl hcut⟩
        · exact Or.inr ⟨by omega, Or.inr ⟨by omega, by rwa [Nat.sub_sub]⟩⟩

theorem cutInCommand_of_lt {ps qs : List Piece} (h : k < (response rowBytes ps).length) :
    CutInCommand rowBytes (ps ++ qs) k ↔ CutInCommand rowBytes ps k := by
  rw [cutInCommand_append, or_iff_left]
  rintro ⟨hle, -⟩
  omega

theorem cutInCommand_of_le {ps qs : List Piece} (h : (response rowBytes ps).length ≤ k) :
    CutInCommand rowBytes (ps ++ qs) k ↔ CutInCommand rowBytes qs (k - (response rowBytes ps).length) := by
  rw [cutInCommand_append, or_iff_right fun hcut => absurd hcut.lt (Nat.not_lt.mpr h)]
  exact and_iff_right h

theorem take_response_of_lt {ps qs : List Piece} (h : k < (response rowBytes ps).length) :
    (response rowBytes (ps ++ qs)).take k = (response rowBytes ps).take k := by
  rw [response_append, List.take_append_of_le_length (Nat.le_of_lt h)]

theorem take_response_of_le {ps qs : List Piece} (h : (response rowBytes ps).length ≤ k) :
    (response rowBytes (ps ++ qs)).take k
      = response rowBytes ps ++ (response rowBytes qs).take (k - (response rowBytes ps).length) := by
  rw [response_append, List.take_append, List.take_of_length_le h]

end Cuts

theorem response_status {rowBytes : Row → List UInt8} (st : ScrcStatus) : response rowBytes [.status st]
    = (headerInt (ascii "Status") st.number).flatten ++ ascii "$$\n" := by
  rw [response_cons, Piece.sends, List.flatten_append]
  exact List.append_nil _

/-! ### Reading a part that has not come -/

namespace Decoder

variable {t : List UInt8}

theorem block_short {n : Nat} (hn : n ≤ bufsz) (h : t.length < n) :
    block n t = (.error scrcConnectionClosed, t) := by
  rw [block, if_neg (Nat.not_lt.mpr hn), if_pos h]

theorem cmd_short (h : t.length < sizeofScrcCmd) : cmd t = (.error scrcConnectionClosed, t) := by
  rw [cmd, block_short (by decide) h]

/-- Without a command `recv_row` has an unknown one. -/
theorem row_short (h : t.length < sizeofScrcCmd) : row t = (.error scrcUnknownCommand, t) := by
  rw [row, cmd_short h]
  rfl

theorem row_cut {bytes s : List UInt8} {k : Nat} (hsize : bytes.length ≤ bufsz)
    (hs : s = cmdBytes scrcCmdRow ++ (sizeBytes bytes.length ++ bytes)) (hk : sizeofScrcCmd ≤ k)
    (hlt : k < s.length) : ∃ rest, row (s.take k) = (.error scrcConnectionClosed, rest) := by
  have hcmd : (cmdBytes scrcCmdRow).length = sizeofScrcCmd := length_toBytes _ _
  have hlen : (sizeBytes bytes.length).length = sizeofSizeT := length_toBytes _ _
  have hfits : bytes.length < 256 ^ sizeofSizeT := Nat.lt_of_le_of_lt hsize (by decide)
  have hvalue : ofBytes (sizeBytes bytes.length) = bytes.length := ofBytes_toBytes_of_lt hfits
  have hrow : (Except.ok scrcCmdRow : Except UInt32 UInt32).toOption.getD 0 = scrcCmdRow := rfl
  have hnotend : ¬ scrcCmdRow = scrcCmdEnd := by decide
  rw [hs, List.length_append, List.length_append, hcmd, hlen] at hlt
  rw [hs, List.take_append, List.take_of_length_le (hcmd ▸ hk), hcmd, row, cmd_cmdBytes]
  simp only [hrow]
  rw [if_neg hnotend, if_neg (not_not.mpr rfl), List.take_append]
  rcases Nat.lt_or_ge (k - sizeofScrcCmd) sizeofSizeT with hshort | hthere
  · rw [block_short (by decide)]
    · exact ⟨_, rfl⟩
    · rw [List.length_append, List.length_take, List.length_take, hlen]
      omega
  · rw [List.take_of_length_le (hlen ▸ hthere), block_append hlen (by decide)]
    simp only [hvalue]
    rw [block_short hsize]
    · exact ⟨_, rfl⟩
    · rw [List.length_take, hlen]
      omega

/-- A piece that announces a row of these bytes. -/
def Record (rowBytes : Row → List UInt8) (p : Piece) (bytes : List UInt8) : Prop :=
  p.readByRow = true ∧ bytes.length ≤ bufsz
    ∧ (p.sends rowBytes).flatten = cmdBytes scrcCmdRow ++ (sizeBytes bytes.length ++ bytes)

section Records

variable {rowBytes : Row → List UInt8} {p : Piece} {bytes : List UInt8} {ps : List Piece} {k : Nat}

theorem record_column (c : Column) : Record rowBytes (.column c) c.bytes := by
  refine ⟨rfl, ?_, ?_⟩
  · rw [c.length_bytes]
    decide
  · rw [Piece.sends, List.flatten_cons, List.flatten_cons, List.flatten_singleton, c.length_bytes]

theorem record_row {size : Nat} {r : Row} (hlen : (rowBytes r).length = size) (hsize : size ≤ bufsz) :
    Record rowBytes (.row size r) (rowBytes r) := by
  refine ⟨rfl, hlen.trans_le hsize, ?_⟩
  rw [Piece.sends, List.flatten_cons, List.flatten_cons, List.flatten_singleton, hlen]

theorem row_record (h : Record rowBytes p bytes) (hk : (p.sends rowBytes).flatten.length ≤ k) :
    row ((response rowBytes (p :: ps)).take k)
      = (.ok bytes, (response rowBytes ps).take (k - (p.sends rowBytes).flatten.length)) := by
  obtain ⟨-, hsize, hsends⟩ := h
  rw [response_cons, List.take_append, List.take_of_length_le hk, hsends, List.append_assoc,
    List.append_assoc]
  exact row_row rfl hsize

theorem row_record_cut (h : Record rowBytes p bytes) (hk : k < (p.sends rowBytes).flatten.length) :
    ∃ rest, row ((response rowBytes (p :: ps)).take k)
      = (.error (if k < sizeofScrcCmd then scrcUnknownCommand else scrcConnectionClosed), rest) := by
  obtain ⟨-, hsize, hsends⟩ := h
  rw [response_cons, List.take_append_of_le_length (Nat.le_of_lt hk)]
  by_cases hcmd : k < sizeofScrcCmd
  · rw [if_pos hcmd, row_short (by rw [List.length_take]; omega)]
    exact ⟨_, rfl⟩
  · rw [if_neg hcmd]
    exact row_cut hsize hsends (Nat.le_of_not_lt hcmd) hk

theorem row_finish_take (hk : sizeofScrcCmd ≤ k) : row ((response rowBytes (.finish :: ps)).take k)
    = (.error scrcEnd, (response rowBytes ps).take (k - sizeofScrcCmd)) := by
  have hlen : (cmdBytes scrcCmdEnd).length = sizeofScrcCmd := length_toBytes _ _
  rw [response_cons, Piece.sends, List.flatten_singleton, List.take_append,
    List.take_of_length_le (hlen ▸ hk), hlen]
  exact row_end

/-- A cut at a piece that `recv_row` reads. -/
theorem cut_iff_of_lt (h : p.readByRow = true) (hk : k < (p.sends rowBytes).flatten.length) :
    CutInCommand rowBytes (p :: ps) k ↔ k < sizeofScrcCmd := by
  rw [CutInCommand, or_iff_left fun hcut => absurd hcut.1 (Nat.not_le.mpr hk)]
  exact and_iff_right h

theorem cut_iff_of_le (hk : (p.sends rowBytes).flatten.length ≤ k) (hcmd : sizeofScrcCmd ≤ k) :
    CutInCommand rowBytes (p :: ps) k
      ↔ CutInCommand rowBytes ps (k - (p.sends rowBytes).flatten.length) := by
  rw [CutInCommand, or_iff_right fun hcut => absurd hcut.2 (Nat.not_lt.mpr hcmd)]
  exact and_iff_right hk

theorem unknown_iff (k : Nat) :
    (if k < sizeofScrcCmd then scrcUnknownCommand else scrcConnectionClosed) = scrcConnectionClosed
      ↔ ¬ k < sizeofScrcCmd := by
  by_cases hk : k < sizeofScrcCmd
  · rw [if_pos hk]
    exact iff_of_false (by decide) (not_not.mpr hk)
  · rw [if_neg hk]
    exact iff_of_true rfl hk

theorem columnsLoop_whole (columns : List Column) {fuel : Nat} (done : List (List UInt8)) {s : List UInt8}
    (hfuel : (response rowBytes (columnPieces columns)).length < fuel) :
    columnsLoop fuel done (response rowBytes (columnPieces columns) ++ s)
      = (.ok (), done ++ columns.map Column.bytes, s) := by
  have hle : columns.length ≤ (response rowBytes (columnPieces columns)).length :=
    ScrcConnection.length_le_response columns [.finish]
  exact columnsLoop_columns columns [] (hle.trans_lt hfuel) done

theorem columnsLoop_cut (columns : List Column) {fuel : Nat} (done : List (List UInt8))
    (hk : k < (response rowBytes (columnPieces columns)).length) (hfuel : k < fuel) :
    ∃ ret done' rest,
      columnsLoop fuel done ((response rowBytes (columnPieces columns)).take k) = (.error ret, done', rest)
        ∧ (ret = scrcConnectionClosed ↔ ¬ CutInCommand rowBytes (columnPieces columns) k) := by
  induction columns generalizing fuel k done with
  | nil =>
      obtain ⟨fuel, rfl⟩ := Nat.exists_eq_succ_of_ne_zero (Nat.ne_zero_of_lt hfuel)
      have hcmd : k < sizeofScrcCmd := hk
      rw [Nat.succ_eq_add_one, columnsLoop,
        row_short (by rw [List.length_take]; omega)]
      refine ⟨scrcUnknownCommand, done, _, rfl, iff_of_false (by decide) (not_not.mpr ?_)⟩
      exact Or.inl ⟨rfl, hcmd⟩
  | cons c columns ih =>
      obtain ⟨fuel, rfl⟩ := Nat.exists_eq_succ_of_ne_zero (Nat.ne_zero_of_lt hfuel)
      have hrecord : Record rowBytes (.column c) c.bytes := record_column c
      have hcmd := @cmd_le_of_readByRow rowBytes _ hrecord.1
      have hcons : columnPieces (c :: columns) = .column c :: columnPieces columns := rfl
      rw [hcons, length_response_cons] at hk
      rw [hcons, Nat.succ_eq_add_one, columnsLoop]
      rcases Nat.lt_or_ge k (Piece.sends rowBytes (.column c)).flatten.length with hshort | hthere
      · obtain ⟨rest, hrow⟩ := @row_record_cut rowBytes _ _ (columnPieces columns) k hrecord hshort
        have hnotend : ¬ (if k < sizeofScrcCmd then scrcUnknownCommand else scrcConnectionClosed)
            = scrcEnd := by
          split <;> decide
        rw [hrow]
        simp only [if_neg hnotend]
        exact ⟨_, done, rest, rfl, (unknown_iff k).trans (not_congr (cut_iff_of_lt hrecord.1 hshort)).symm⟩
      · rw [row_record hrecord hthere]
        simp only
        rw [cut_iff_of_le hthere (hcmd.trans hthere)]
        exact ih _ (by omega) (by rw [sizeofScrcCmd] at hcmd; omega)

end Records

/-! ### The calls -/

section Calls

variable {rowBytes : Row → List UInt8} {d : Decoder} {k : Nat}

/-- The decoder as a machine. -/
def stepOk (d : Decoder) (call : Client.Call) : Except Fault (Decoder × Client.Reply) := .ok (d.step call)

theorem query_of_error {query rest : List UInt8} {ret : UInt32} {body : Bool} (hstatus : d.status = scrcOk)
    (hheader : header d.stream = (ret, body, rest)) (hret : ret ≠ scrcOk) :
    d.query (some query) scrcOk
      = ({ d with status := ret, columns := [], body := body, stream := rest }, ret) := by
  have hsent : ¬ (if query = [] then scrcOk else scrcOk) ≠ scrcOk := by
    rw [ite_self]
    exact not_not.mpr rfl
  rw [Decoder.query, if_neg (not_not.mpr hstatus)]
  simp only [hsent, if_false, hheader, if_pos hret]
  rfl

theorem query_of_ok {query rest : List UInt8} {body : Bool} (hstatus : d.status = scrcOk)
    (hheader : header d.stream = (scrcOk, body, rest)) :
    d.query (some query) scrcOk
      = if body = false then ({ d with columns := [], body := body, stream := rest }, scrcOk)
        else { d with columns := [], body := body, stream := rest }.table := by
  have hsent : ¬ (if query = [] then scrcOk else scrcOk) ≠ scrcOk := by
    rw [ite_self]
    exact not_not.mpr rfl
  have hok : ¬ scrcOk ≠ scrcOk := not_not.mpr rfl
  rw [Decoder.query, if_neg (not_not.mpr hstatus)]
  simp only [hsent, if_false, hheader, hok]

theorem step_query {d' : Decoder} {query : List UInt8} {ret : UInt32}
    (hquery : d.query (some query) scrcOk = (d', ret)) :
    d.step (.query (some query) scrcOk) = (d', ⟨ret, d'.columns, none, none⟩) := by
  rw [Decoder.step, hquery]

theorem header_cut (hk : k < (response rowBytes [.bodyHeader]).length) :
    (header ((response rowBytes [.bodyHeader]).take k)).1 = scrcConnectionClosed := by
  have hcuts : ∀ k < 23, (header ((ascii "Status: 0\nBody: Yes\n$$\n").take k)).1
      = scrcConnectionClosed := by decide
  exact hcuts k hk

theorem status_cut : ∀ k < 13, (header ((ascii "Status: 0\n$$\n").take k)).1 = scrcConnectionClosed := by
  decide

theorem header_status {st : ScrcStatus} (hst : st ≠ .ok) (s : List UInt8) :
    header ((headerInt (ascii "Status") st.number).flatten ++ s) = (st.number.toUInt32, false, s) := by
  cases st <;> first | exact absurd rfl hst | rfl

theorem header_status_cut (st : ScrcStatus) :
    ∀ k < (headerInt (ascii "Status") st.number).flatten.length,
      (header (((headerInt (ascii "Status") st.number).flatten).take k)).1 = scrcConnectionClosed := by
  cases st <;> decide

theorem table_cut {columns : List Column} (hk : k < (response rowBytes (tableHead columns)).length)
    (hstream : d.stream = (response rowBytes (tableHead columns)).take k) :
    d.table.2 = scrcConnectionClosed ↔ ¬ CutInCommand rowBytes (tableHead columns) k := by
  have hcmd (c : UInt32) : (cmdBytes c).length = sizeofScrcCmd := length_toBytes _ _
  have htab : response rowBytes [.tabheader] = cmdBytes scrcCmdTabheader := List.append_nil _
  have hdata : response rowBytes [.tabdata] = cmdBytes scrcCmdTabdata := List.append_nil _
  have hnone {p : Piece} {k : Nat} (hp : p.readByRow = false) : ¬ CutInCommand rowBytes [p] k := by
    rintro (⟨hrow, -⟩ | ⟨-, hcut⟩)
    · rw [hp] at hrow
      cases hrow
    · exact hcut
  rw [tableHead] at hk hstream ⊢
  rcases Nat.lt_or_ge k (response rowBytes [.tabheader]).length with hshort | hthere
  · rw [take_response_of_lt hshort] at hstream
    rw [cutInCommand_of_lt hshort, Decoder.table, hstream, cmd_short (by
      rw [List.length_take, ← hcmd scrcCmdTabheader, ← htab]
      omega)]
    exact iff_of_true rfl (hnone rfl)
  · rw [take_response_of_le hthere] at hstream
    rw [cutInCommand_of_le hthere]
    rw [response_append, List.length_append] at hk
    generalize hk' : k - (response rowBytes [.tabheader]).length = k' at hstream
    rw [Decoder.table, hstream, htab, cmd_cmdBytes]
    simp only [ne_eq, not_true_eq_false, if_false]
    rcases Nat.lt_or_ge k' (response rowBytes (columnPieces columns)).length with
      hshort' | hthere'
    · rw [take_response_of_lt hshort', cutInCommand_of_lt hshort']
      obtain ⟨ret, done, rest, hloop, hret⟩ := columnsLoop_cut columns d.columns hshort'
        (show k' < ((response rowBytes (columnPieces columns)).take k').length + 1 by
          rw [List.length_take]
          omega)
      rw [hloop]
      exact hret
    · rw [take_response_of_le hthere', cutInCommand_of_le hthere',
        columnsLoop_whole columns d.columns (by rw [List.length_append]; omega)]
      simp only
      rw [response_append, List.length_append] at hk
      rw [cmd_short (by
        rw [List.length_take, ← hcmd scrcCmdTabdata, ← hdata]
        omega)]
      exact iff_of_true rfl (hnone rfl)

theorem query_cut {columns : List Column} {query : List UInt8} (hstatus : d.status = scrcOk)
    (hk : k < (response rowBytes (ServerResponse.head columns)).length)
    (hstream : d.stream = (response rowBytes (ServerResponse.head columns)).take k) :
    (d.query (some query) scrcOk).2 = scrcConnectionClosed
      ↔ ¬ CutInCommand rowBytes (ServerResponse.head columns) k := by
  rw [head_eq] at hk hstream ⊢
  rcases Nat.lt_or_ge k (response rowBytes [.bodyHeader]).length with hshort | hthere
  · rw [take_response_of_lt hshort] at hstream
    have hclosed := header_cut hshort
    rw [← hstream] at hclosed
    rw [query_of_error hstatus (Prod.ext hclosed rfl) (by decide), cutInCommand_of_lt hshort]
    refine iff_of_true rfl ?_
    rintro (⟨hrow, -⟩ | ⟨-, hcut⟩)
    · cases hrow
    · exact hcut
  · rw [take_response_of_le hthere] at hstream
    rw [response_append, List.length_append] at hk
    have hheader : header d.stream = (scrcOk, true, (response rowBytes (tableHead columns)).take
        (k - (response rowBytes [.bodyHeader]).length)) := by
      rw [hstream]
      exact header_bodyHeader []
    rw [query_of_ok hstatus hheader, if_neg Bool.true_eq_false_eq_False, cutInCommand_of_le hthere]
    exact table_cut (by omega) rfl

theorem step_fetchRow_error (hbody : d.body = true) {ret : UInt32} {rest : List UInt8}
    (hrow : row d.stream = (.error ret, rest)) (hret : ret ≠ scrcEnd) :
    d.step .fetchRow = ({ d with status := ret, stream := rest, fetched := false },
      ⟨ret, d.columns, some none, none⟩) := by
  have hsome : ¬ d.body = false := by
    rw [hbody]
    exact Bool.true_eq_false_eq_False
  rw [Decoder.step, fetchRow, if_neg hsome, hrow]
  simp only [if_neg hret]

theorem step_fetchRow_end (hbody : d.body = true) {rest : List UInt8}
    (hrow : row d.stream = (.error scrcEnd, rest)) :
    d.step .fetchRow = ({ d with status := scrcOk, stream := rest, fetched := false },
      ⟨scrcOk, d.columns, some none, none⟩) := by
  have hsome : ¬ d.body = false := by
    rw [hbody]
    exact Bool.true_eq_false_eq_False
  rw [Decoder.step, fetchRow, if_neg hsome, hrow]
  rfl

theorem step_fetchRow_ok (hbody : d.body = true) {bytes rest : List UInt8}
    (hrow : row d.stream = (.ok bytes, rest)) :
    d.step .fetchRow = ({ d with status := scrcOk, stream := rest, fetched := true },
      ⟨scrcOk, d.columns, some (some bytes), none⟩) := by
  have hsome : ¬ d.body = false := by
    rw [hbody]
    exact Bool.true_eq_false_eq_False
  rw [Decoder.step, fetchRow, if_neg hsome, hrow]

theorem recognises_rows {columns : List (List UInt8)} (rows : List (Nat × Row)) (hbody : d.body = true)
    (hcolumns : d.columns = columns)
    (hrows : ∀ row ∈ rows, (rowBytes row.2).length = row.1 ∧ row.1 ≤ bufsz)
    (hstream : d.stream = (response rowBytes (rowPieces rows ++ [.finish])).take k) :
    Recognises stepOk
        (rows.map (fun row => ⟨.fetchRow, response rowBytes [.row row.1 row.2],
            ⟨scrcOk, columns, some (some (rowBytes row.2)), none⟩⟩)
          ++ [⟨.fetchRow, response rowBytes [.finish], ⟨scrcOk, columns, some none, none⟩⟩]) d k
      ↔ ¬ CutInCommand rowBytes (rowPieces rows ++ [.finish]) k := by
  induction rows generalizing d k with
  | nil =>
      have hnil : rowPieces [] ++ [.finish] = [.finish] := rfl
      rw [hnil] at hstream ⊢
      rw [List.map_nil, List.nil_append, Recognises]
      have hlen : (response rowBytes [.finish]).length = sizeofScrcCmd := rfl
      rcases Nat.lt_or_ge k sizeofScrcCmd with hshort | hthere
      · have hrow := row_short (t := d.stream) (by
          rw [hstream, List.length_take]
          omega)
        have hcut : CutInCommand rowBytes [.finish] k := Or.inl ⟨rfl, hshort⟩
        refine iff_of_false ?_ (not_not.mpr hcut)
        rintro ⟨d', reply, hstep, hreply⟩
        rw [stepOk, step_fetchRow_error hbody hrow (by decide)] at hstep
        rw [if_neg (by simp only [hlen]; omega)] at hreply
        cases hstep
        have hclosed : scrcUnknownCommand = scrcConnectionClosed := hreply.1
        exact absurd hclosed (by decide)
      · rw [← hcolumns]
        have hrow := @row_finish_take rowBytes [] k hthere
        rw [← hstream] at hrow
        refine iff_of_true ⟨_, _, congrArg Except.ok (step_fetchRow_end hbody hrow), ?_⟩
          fun hcut => Nat.not_lt.mpr hthere hcut.lt
        rw [if_pos (by simpa only [hlen] using hthere)]
        exact ⟨rfl, trivial⟩
  | cons r rows ih =>
      obtain ⟨hlen, hsize⟩ := hrows r List.mem_cons_self
      have hrecord : Record rowBytes (.row r.1 r.2) (rowBytes r.2) := record_row hlen hsize
      have hcmd := @cmd_le_of_readByRow rowBytes _ hrecord.1
      have hone : response rowBytes [.row r.1 r.2] = (Piece.sends rowBytes (.row r.1 r.2)).flatten := by
        rw [response_cons]
        exact List.append_nil _
      have hcons : rowPieces (r :: rows) ++ [.finish] = .row r.1 r.2 :: (rowPieces rows ++ [.finish]) := rfl
      rw [hcons] at hstream ⊢
      rw [List.map_cons, List.cons_append, Recognises]
      simp only [hone]
      rcases Nat.lt_or_ge k (Piece.sends rowBytes (.row r.1 r.2)).flatten.length with hshort | hthere
      · obtain ⟨rest, hrow⟩ := @row_record_cut rowBytes _ _ (rowPieces rows ++ [.finish]) k hrecord hshort
        rw [← hstream] at hrow
        rw [cut_iff_of_lt hrecord.1 hshort, ← unknown_iff]
        have hnotend : ¬ (if k < sizeofScrcCmd then scrcUnknownCommand else scrcConnectionClosed)
            = scrcEnd := by
          split <;> decide
        have hstep := step_fetchRow_error hbody hrow hnotend
        constructor
        · rintro ⟨d', reply, hstep', hreply⟩
          rw [stepOk, hstep] at hstep'
          rw [if_neg (Nat.not_le.mpr hshort)] at hreply
          cases hstep'
          exact hreply.1
        · intro hclosed
          refine ⟨_, _, congrArg Except.ok hstep, ?_⟩
          rw [if_neg (Nat.not_le.mpr hshort)]
          exact ⟨hclosed, rfl⟩
      · have hrow := @row_record rowBytes _ _ (rowPieces rows ++ [.finish]) k
          hrecord hthere
        rw [← hstream] at hrow
        have hstep := step_fetchRow_ok hbody hrow
        rw [cut_iff_of_le hthere (hcmd.trans hthere)]
        have hnext := @ih { d with
            status := scrcOk, fetched := true
            stream := (response rowBytes (rowPieces rows ++ [.finish])).take
              (k - (Piece.sends rowBytes (.row r.1 r.2)).flatten.length) }
          (k - (Piece.sends rowBytes (.row r.1 r.2)).flatten.length) hbody hcolumns
          (fun row hrow => hrows row (List.mem_cons_of_mem r hrow)) rfl
        have hfits : (Piece.sends rowBytes (.row r.1 r.2)).flatten.length ≤ k := hthere
        rw [← hnext, ← hcolumns]
        constructor
        · rintro ⟨d', reply, hstep', hreply⟩
          rw [stepOk, hstep] at hstep'
          rw [if_pos hfits] at hreply
          cases hstep'
          exact hreply.2
        · intro hrest
          refine ⟨_, _, congrArg Except.ok hstep, ?_⟩
          rw [if_pos hfits]
          exact ⟨rfl, hrest⟩

theorem recognises_status (st : ScrcStatus) (query : List UInt8) (hstatus : d.status = scrcOk)
    (hstream : d.stream = (response rowBytes [.status st]).take k) :
    Recognises stepOk ((ServerResponse.status st).exchanges rowBytes query) d k := by
  have hclosed : scrcConnectionClosed ≠ scrcOk := by decide
  by_cases hst : st = .ok
  · subst hst
    have hlen : (response rowBytes [.status .ok]).length = 13 := rfl
    rw [ServerResponse.exchanges]
    simp only [if_true]
    rcases Nat.lt_or_ge k 13 with hshort | hthere
    · have hcut := status_cut k hshort
      change d.stream = (ascii "Status: 0\n$$\n").take k at hstream
      rw [← hstream] at hcut
      refine ⟨_, _, congrArg Except.ok (step_query (query_of_error hstatus (Prod.ext hcut rfl) hclosed)), ?_⟩
      rw [if_neg (by simp only [hlen]; omega)]
      exact ⟨rfl, rfl⟩
    · have hwhole : d.stream = ascii "Status: 0\n$$\n" :=
        hstream.trans (List.take_of_length_le hthere)
      have hheader : header d.stream = (scrcOk, false, []) := by
        rw [hwhole]
        rfl
      refine ⟨_, _, congrArg Except.ok (step_query (query_of_ok hstatus hheader)), ?_⟩
      rw [if_pos (by simpa only [hlen] using hthere)]
      exact ⟨rfl, trivial⟩
  · rw [response_status] at hstream
    rw [ServerResponse.exchanges]
    simp only [if_neg hst]
    rcases Nat.lt_or_ge k (headerInt (ascii "Status") st.number).flatten.length with hshort | hthere
    · have hcut := header_status_cut st k hshort
      rw [List.take_append_of_le_length (Nat.le_of_lt hshort)] at hstream
      rw [← hstream] at hcut
      refine ⟨_, _, congrArg Except.ok (step_query (query_of_error hstatus (Prod.ext hcut rfl) hclosed)), ?_⟩
      rw [if_neg (Nat.not_le.mpr hshort)]
      exact ⟨rfl, rfl⟩
    · rw [List.take_append, List.take_of_length_le hthere] at hstream
      have hheader := header_status hst ((ascii "$$\n").take
        (k - (headerInt (ascii "Status") st.number).flatten.length))
      rw [← hstream] at hheader
      have hret : st.number.toUInt32 ≠ scrcOk := by
        cases st <;> first | exact absurd rfl hst | decide
      refine ⟨_, _, congrArg Except.ok (step_query (query_of_error hstatus hheader hret)), ?_⟩
      rw [if_pos (show _ ≤ k from hthere)]
      exact ⟨rfl, trivial⟩

theorem not_cut_status (st : ScrcStatus) : ¬ CutInCommand rowBytes [.status st] k := by
  rintro (⟨hrow, -⟩ | ⟨-, hcut⟩)
  · cases hrow
  · exact hcut

/-- **A response that ends early**, as it is decoded. -/
theorem recognises_iff (r : ServerResponse) (hfits : r.Fits rowBytes) (query : List UInt8)
    (hstatus : d.status = scrcOk) (hstream : d.stream = (response rowBytes r.pieces).take k) :
    Recognises stepOk (r.exchanges rowBytes query) d k ↔ ¬ CutInCommand rowBytes r.pieces k := by
  cases r with
  | status st =>
      exact iff_of_true (recognises_status st query hstatus hstream) (not_cut_status st)
  | body columns rows =>
      have hpieces : (ServerResponse.body columns rows).pieces = ServerResponse.head columns
          ++ (rowPieces rows ++ [.finish]) := List.append_assoc _ _ _
      rw [hpieces] at hstream ⊢
      rw [ServerResponse.exchanges, List.cons_append, Recognises]
      rcases Nat.lt_or_ge k (response rowBytes (ServerResponse.head columns)).length with hshort | hthere
      · rw [take_response_of_lt hshort] at hstream
        rw [cutInCommand_of_lt hshort, ← @query_cut rowBytes d k columns query hstatus hshort hstream]
        constructor
        · rintro ⟨d', reply, hstep, hreply⟩
          rw [if_neg (Nat.not_le.mpr hshort)] at hreply
          cases hstep
          exact hreply.1
        · intro hclosed
          refine ⟨_, _, rfl, ?_⟩
          rw [if_neg (Nat.not_le.mpr hshort)]
          exact ⟨hclosed, rfl⟩
      · have hfits' : (response rowBytes (ServerResponse.head columns)).length ≤ k := hthere
        rw [take_response_of_le hthere] at hstream
        have hhead : ServerResponse.head columns
            = .bodyHeader :: .tabheader :: (columns.map .column ++ .finish :: .tabdata :: []) := by
          simp only [ServerResponse.head, List.cons_append, List.nil_append]
        rw [hhead] at hstream
        have hquery := ScrcConnection.query_response columns [] hstatus hstream query
        have hrows := @recognises_rows rowBytes { d with
            status := scrcOk, columns := columns.map Column.bytes, body := true
            stream := response rowBytes [] ++
              (response rowBytes (rowPieces rows ++ [.finish])).take
                (k - (response rowBytes (ServerResponse.head columns)).length) }
          (k - (response rowBytes (ServerResponse.head columns)).length) _ rows rfl rfl hfits rfl
        rw [hhead] at hrows hfits' ⊢
        rw [cutInCommand_of_le hfits', ← hrows]
        constructor
        · rintro ⟨d', reply, hstep, hreply⟩
          rw [stepOk, step_query hquery] at hstep
          rw [if_pos hfits'] at hreply
          cases hstep
          exact hreply.2
        · intro hrest
          refine ⟨_, _, congrArg Except.ok (step_query hquery), ?_⟩
          rw [if_pos hfits']
          exact ⟨rfl, hrest⟩

/-! ### The columns of a response that ends early -/

theorem plainColumns_take (columns : List Column) (ps : List Piece) (fuel k : Nat) :
    ScrcConnection.PlainColumns fuel
      ((response rowBytes (columns.map .column ++ .finish :: ps)).take k) := by
  induction columns generalizing fuel k with
  | nil =>
      cases fuel with
      | zero => exact trivial
      | succ fuel =>
          intro bytes rest hrow
          rw [List.map_nil, List.nil_append] at hrow
          rcases Nat.lt_or_ge k sizeofScrcCmd with hshort | hthere
          · rw [row_short (by rw [List.length_take]; omega)] at hrow
            cases hrow
          · rw [row_finish_take hthere] at hrow
            cases hrow
  | cons c columns ih =>
      cases fuel with
      | zero => exact trivial
      | succ fuel =>
          intro bytes rest hrow
          rw [List.map_cons, List.cons_append] at hrow
          have hrecord : Record rowBytes (.column c) c.bytes := record_column c
          rcases Nat.lt_or_ge k (Piece.sends rowBytes (.column c)).flatten.length with hshort | hthere
          · obtain ⟨rest', hcut⟩ :=
              @row_record_cut rowBytes _ _ (columns.map .column ++ .finish :: ps) k hrecord hshort
            rw [hcut] at hrow
            cases hrow
          · rw [row_record hrecord hthere] at hrow
            cases hrow
            exact ⟨Nat.le_of_eq c.length_bytes.symm, ih fuel _⟩

theorem status_no_body (st : ScrcStatus) (k : Nat) {rest : List UInt8} :
    header ((response rowBytes [.status st]).take k) ≠ (scrcOk, true, rest) := by
  have hcuts : ∀ k < 20, (header (((headerInt (ascii "Status") st.number).flatten ++ ascii "$$\n").take k)).1
        = scrcOk →
      (header (((headerInt (ascii "Status") st.number).flatten ++ ascii "$$\n").take k)).2.1 = false := by
    cases st <;> decide
  have hlen : ((headerInt (ascii "Status") st.number).flatten ++ ascii "$$\n").length < 20 := by
    cases st <;> decide
  rw [response_status]
  generalize (headerInt (ascii "Status") st.number).flatten ++ ascii "$$\n" = s at hcuts hlen
  intro hheader
  obtain ⟨j, hj, htake⟩ : ∃ j < 20, s.take k = s.take j := by
    rcases Nat.lt_or_ge k 20 with hlt | hge
    · exact ⟨k, hlt, rfl⟩
    · exact ⟨s.length, hlen, by rw [List.take_of_length_le (by omega), List.take_length]⟩
  rw [htake] at hheader
  have hbody := hcuts j hj (by rw [hheader])
  rw [hheader] at hbody
  cases hbody

theorem plainColumns_response (r : ServerResponse) {s rest rest' : List UInt8}
    (hs : s = (response rowBytes r.pieces).take k) (hheader : header s = (scrcOk, true, rest))
    (hcmd : cmd rest = (.ok scrcCmdTabheader, rest')) (fuel : Nat) :
    ScrcConnection.PlainColumns fuel rest' := by
  cases r with
  | status st =>
      rw [hs] at hheader
      exact absurd hheader (status_no_body st k)
  | body columns rows =>
      have hpieces : (ServerResponse.body columns rows).pieces = [.bodyHeader] ++ ([.tabheader]
          ++ (columns.map .column ++ .finish :: .tabdata :: (rowPieces rows ++ [.finish]))) := by
        simp only [ServerResponse.pieces, ServerResponse.head, List.append_assoc, List.cons_append,
          List.nil_append]
      rw [hpieces] at hs
      rcases Nat.lt_or_ge k (response rowBytes [.bodyHeader]).length with hshort | hthere
      · rw [take_response_of_lt hshort] at hs
        have hclosed := header_cut hshort
        rw [← hs, hheader] at hclosed
        have hok : scrcOk = scrcConnectionClosed := hclosed
        exact absurd hok (by decide)
      · rw [take_response_of_le hthere] at hs
        rw [hs, header_bodyHeader []] at hheader
        cases hheader
        have htab : response rowBytes [.tabheader] = cmdBytes scrcCmdTabheader := List.append_nil _
        have hlen : (cmdBytes scrcCmdTabheader).length = sizeofScrcCmd := length_toBytes _ _
        rw [show response rowBytes [] = [] from rfl, List.nil_append] at hcmd
        generalize k - (response rowBytes [.bodyHeader]).length = k at hcmd
        rcases Nat.lt_or_ge k (response rowBytes [.tabheader]).length with hshort | hthere
        · rw [cmd_short (by rw [List.length_take, ← hlen, ← htab]; omega)] at hcmd
          cases hcmd
        · rw [take_response_of_le hthere, htab, cmd_cmdBytes] at hcmd
          cases hcmd
          exact plainColumns_take columns _ fuel _

end Calls

end Decoder

/-! ### The client -/

namespace Client

open ScrcConnection

variable {rowBytes : Row → List UInt8} {c : Client}

theorem recognises_step_iff {d : Decoder} {es : List Exchange} {k : Nat} (h : c.Agrees d)
    (hkept : c.Kept (es.map Exchange.call)) :
    Recognises step es c k ↔ Recognises Decoder.stepOk es d k := by
  induction es generalizing c d k with
  | nil => exact Iff.rfl
  | cons e es ih =>
      obtain ⟨c₁, hstep, hagrees⟩ := step_decodes h e.call hkept.1
      have hnext := @ih c₁ (d.step e.call).1 (k - e.bytes.length) hagrees (hkept.2 c₁ _ hstep)
      rw [Recognises, Recognises]
      constructor
      · rintro ⟨c', reply, hstep', hreply⟩
        rw [hstep] at hstep'
        cases hstep'
        rw [hnext] at hreply
        exact ⟨_, _, rfl, hreply⟩
      · rintro ⟨d', reply, hstep', hreply⟩
        rw [Except.ok.inj hstep'] at hstep hnext
        rw [← hnext] at hreply
        exact ⟨_, _, hstep, hreply⟩

/-- The header lines are read without compaction, so that everything is read as it has to be. -/
theorem kept_exchanges (r : ServerResponse) (query : List UInt8) {k : Nat} (h : c.conn.Healthy)
    (hview : c.conn.view = (response rowBytes r.pieces).take k)
    (hkept : HeaderKept (c.conn.left + 1) { c.conn with columns := [], body := false }) :
    c.Kept ((r.exchanges rowBytes query).map Exchange.call) := by
  have hquery := queryKept_of_header h hkept
    (fun rest rest' hheader hcmd => Decoder.plainColumns_response r hview hheader hcmd _)
    (some query) scrcOk
  have hfirst : ∀ q sent, Call.query (some query) scrcOk = .query q sent → c.conn.QueryKept q sent := by
    rintro q sent ⟨rfl, rfl⟩
    exact hquery
  cases r with
  | status st => exact ⟨hfirst, fun _ _ _ => trivial⟩
  | body columns rows =>
      refine ⟨hfirst, fun c' reply _ => kept_of_no_query c' _ fun q sent hmem => ?_⟩
      obtain ⟨e, he, hcall⟩ := List.mem_map.mp hmem
      rcases List.mem_append.mp he with hrow | hlast
      · obtain ⟨row, -, rfl⟩ := List.mem_map.mp hrow
        cases hcall
      · rw [List.mem_singleton.mp hlast] at hcall
        cases hcall

theorem agrees_self (h : c.conn.Healthy) :
    c.Agrees ⟨c.conn.status, c.conn.columns, c.conn.body, c.conn.view, c.row.isSome⟩ :=
  ⟨⟨h, rfl, rfl, rfl, rfl⟩, rfl⟩

section FirstResponse

variable {total early fuel k : Nat} {body : Bool} {l t name : List UInt8} {value : Option (List UInt8)}
  {next : Except UInt32 Bool}

theorem plainHeader_take (hfirst : isspace (l.headD 0) = false)
    (hcut : ∀ k < l.length, (Decoder.line (l.take k)).1.toOption = none)
    (hline : ∀ t, Decoder.line (l ++ t) = (.ok (name, value), t))
    (hread : total ≤ early + ((l ++ t).take k).length) (hstep : headerStep name value body = next)
    (hnext : l.length ≤ k → ∀ body', next = .ok body' →
      PlainHeader total early fuel body' (t.take (k - l.length))) :
    PlainHeader total early (fuel + 1) body ((l ++ t).take k) := by
  have hhead : ∀ b ∈ l.head?, isspace b = false := by
    intro b hb
    cases l with
    | nil => cases hb
    | cons c l =>
        cases hb
        exact hfirst
  rcases Nat.lt_or_ge k l.length with hshort | hthere
  · rw [List.take_append_of_le_length (Nat.le_of_lt hshort)] at hread ⊢
    refine ⟨fun b hb => hhead b ?_, hread, fun name value rest hdecoded => ?_⟩
    · cases k with
      | zero => cases hb
      | succ k =>
          cases l with
          | nil => cases hb
          | cons c l => exact hb
    · have hnone := hcut k hshort
      rw [hdecoded] at hnone
      cases hnone
  · rw [List.take_append, List.take_of_length_le hthere] at hread ⊢
    refine PlainHeader.line (fun b hb => ?_) hread (hline _) hstep (hnext hthere)
    cases l with
    | nil =>
        have hcontra := (hline []).symm
        cases hcontra
    | cons c l => exact hhead b hb

/-- The header of a response, up to where it ends, is plain. -/
theorem plainHeader_response (r : ServerResponse) (fuel k : Nat) :
    PlainHeader ((response rowBytes r.pieces).take k).length 23 fuel false
      ((response rowBytes r.pieces).take k) := by
  have hend (total fuel k : Nat) (body : Bool) (t : List UInt8)
      (hread : total ≤ 23 + ((ascii "$$\n" ++ t).take k).length) :
      PlainHeader total 23 fuel body ((ascii "$$\n" ++ t).take k) := by
    cases fuel with
    | zero => exact trivial
    | succ fuel =>
        refine plainHeader_take (by decide) (by decide) Decoder.line_end hread rfl fun _ body' hbody => ?_
        cases hbody
  cases fuel with
  | zero => exact trivial
  | succ fuel =>
      cases r with
      | status st =>
          have hline : ∀ t, Decoder.line ((headerInt (ascii "Status") st.number).flatten ++ t)
              = (.ok (ascii "Status", some (ascii (toString st.number))), t) := by
            cases st <;> exact fun t => rfl
          have hlen : (headerInt (ascii "Status") st.number).flatten.length ≤ 23 := by cases st <;> decide
          rw [ServerResponse.pieces, response_status]
          refine plainHeader_take (by cases st <;> decide) (by cases st <;> decide) hline
            (Nat.le_add_left _ _) rfl fun hle body' _ => ?_
          rw [← List.append_nil (ascii "$$\n")]
          apply hend
          rw [List.append_nil, List.length_take, List.length_take, List.length_append]
          omega
      | body columns rows =>
          obtain ⟨t, ht⟩ : ∃ t, response rowBytes (ServerResponse.body columns rows).pieces
              = ascii "Status: 0\n" ++ (ascii "Body: Yes\n" ++ (ascii "$$\n" ++ t)) := by
            refine ⟨response rowBytes (tableHead columns ++ (rowPieces rows ++ [.finish])), ?_⟩
            rw [ServerResponse.pieces, head_eq, List.append_assoc, List.append_assoc, List.singleton_append,
              response_cons, Decoder.bodyHeader_flatten, List.append_assoc, List.append_assoc]
          have hA : (ascii "Status: 0\n").length = 10 := by decide
          have hB : (ascii "Body: Yes\n").length = 10 := by decide
          rw [ht]
          refine plainHeader_take (by decide) (by decide) Decoder.line_status (Nat.le_add_left _ _) rfl
            fun hle body' hbody => ?_
          cases hbody
          cases fuel with
          | zero => exact trivial
          | succ fuel =>
              refine plainHeader_take (by decide) (by decide) Decoder.line_body ?_ rfl
                fun hle' body' hbody => hend _ _ _ _ _ ?_
              · rw [List.length_take, List.length_take, List.length_append, hA]
                omega
              · rw [List.length_take, List.length_take, List.length_append, List.length_append, hA, hB]
                omega

end FirstResponse

/-- The first header of a connection is read without compaction. -/
theorem headerKept_connected (rbuf : Nat → UInt8) (r : ServerResponse) (k : Nat) :
    HeaderKept ((connected rbuf [] ((response rowBytes r.pieces).take k)).conn.left + 1)
      { (connected rbuf [] ((response rowBytes r.pieces).take k)).conn with columns := [], body := false } := by
  have hplain := @plainHeader_response rowBytes r
    ((connected rbuf [] ((response rowBytes r.pieces).take k)).conn.left + 1) k
  refine headerKept_of_plain (early_le (by decide)) _ ?_ ?_ hplain
  · exact ⟨⟨Nat.le_refl _, Nat.zero_le _⟩, List.forall_mem_nil _⟩
  · exact Nat.le_of_eq (Nat.zero_add _)

/-- A body with a column and a row. -/
def smallBody : ServerResponse := .body [⟨[97], 16, .bigint, 0⟩] [(24, Row.zero)]

def smallBytes : Row → List UInt8 := fun _ => List.replicate 24 7

theorem smallBody_fits : smallBody.Fits smallBytes := by
  intro row hrow
  cases List.mem_singleton.mp hrow
  exact ⟨rfl, by decide⟩

/-- A client that receives the first `k` bytes of it. -/
def smallClient (k : Nat) : Client :=
  connected (fun _ => 0) [] ((response smallBytes smallBody.pieces).take k)

theorem healthy_smallClient (k : Nat) : (smallClient k).conn.Healthy :=
  ⟨⟨Nat.le_refl _, Nat.zero_le _⟩, List.forall_mem_nil _⟩

/-- **Truncation.** Where the lines of the header are read without compaction, a client recognises a response
that ends early exactly when it does not end in front of a command word that `recv_row` reads, or inside it. -/
theorem truncation_recognised_iff {r : ServerResponse} (hfits : r.Fits rowBytes) (query : List UInt8) (k : Nat)
    (h : c.conn.Healthy) (hstatus : c.conn.status = scrcOk)
    (hview : c.conn.view = (response rowBytes r.pieces).take k)
    (hkept : HeaderKept (c.conn.left + 1) { c.conn with columns := [], body := false }) :
    Recognises step (r.exchanges rowBytes query) c k ↔ ¬ CutInCommand rowBytes r.pieces k := by
  rw [recognises_step_iff (agrees_self h) (kept_exchanges r query h hview hkept)]
  exact Decoder.recognises_iff r hfits query hstatus hview

/-- The response ends inside its row. -/
theorem recognises_smallBody : Recognises step (smallBody.exchanges smallBytes [1]) (smallClient 100) 100 :=
  (truncation_recognised_iff smallBody_fits [1] 100 (healthy_smallClient 100) rfl rfl
    (headerKept_connected _ smallBody 100)).mpr (by decide)

/-- The response ends in front of its row. -/
theorem not_recognises_smallBody :
    ¬ Recognises step (smallBody.exchanges smallBytes [1]) (smallClient 87) 87 := by
  rw [recognises_step_iff (agrees_self (healthy_smallClient 87))
      (kept_exchanges smallBody [1] (healthy_smallClient 87) rfl (headerKept_connected _ smallBody 87)),
    Decoder.recognises_iff smallBody smallBody_fits [1] rfl rfl]
  decide

end Client

end Scroller
