import Scroller.SessionSend

/-!
# Buffered sending

The bytes on the socket followed by the bytes in the buffer are the stream the client will have seen after
a flush. Every call appends its argument to the stream, with one exception: an empty buffer and an
argument of at least a buffer's size. The head is counted then and never sent.
-/

namespace Scroller

open ByteMemory

theorem sendBlockLoop_succeeds {outcomes : List Transfer} (h : ∀ t ∈ outcomes, t.Succeeds)
    (written data : List UInt8) :
    ∃ rest, (∀ t ∈ rest, t.Succeeds)
      ∧ sendBlockLoop written outcomes data = (⟨rest, written ++ data⟩, .ok) := by
  induction outcomes generalizing written data with
  | nil =>
      cases data with
      | nil => exact ⟨[], h, by simp [sendBlockLoop]⟩
      | cons byte data => exact ⟨[], h, rfl⟩
  | cons t outcomes ih =>
      have hrest : ∀ t ∈ outcomes, t.Succeeds := fun t ht => h t (List.mem_cons_of_mem _ ht)
      cases data with
      | nil => exact ⟨t :: outcomes, h, by simp [sendBlockLoop]⟩
      | cons byte data =>
          cases t with
          | interrupted => exact ih hrest written (byte :: data)
          | failed => exact (h .failed List.mem_cons_self).elim
          | closed => exact (h .closed List.mem_cons_self).elim
          | moved more =>
              obtain ⟨rest, hsucceeds, hloop⟩ := ih hrest
                (written ++ (byte :: data).take (more + 1)) ((byte :: data).drop (more + 1))
              rw [List.append_assoc, List.take_append_drop] at hloop
              exact ⟨rest, hsucceeds, hloop⟩

/-- A block is written whole where every `send` moves something. -/
theorem sendBlock_succeeds {client : Outbound} (h : ∀ t ∈ client.outcomes, t.Succeeds)
    (data : List UInt8) :
    ∃ rest, (∀ t ∈ rest, t.Succeeds)
      ∧ sendBlock client data = (⟨rest, client.written ++ data⟩, .ok) :=
  sendBlockLoop_succeeds h client.written data

namespace SendBuffer

/-- What is on the socket and in the buffer. -/
def stream (s : SendBuffer) : List UInt8 := s.client.written ++ slice s.sendBuf 0 s.sendBufIdx

/-- Every `send` on the socket moves something. -/
def Healthy (s : SendBuffer) : Prop := ∀ t ∈ s.client.outcomes, t.Succeeds

/-- What a call at a fill level appends to the stream. -/
def accepted (idx : Nat) (buf : List UInt8) : List UInt8 :=
  if idx = 0 ∧ sendbufsz ≤ buf.length then buf.take (buf.length - sendbufsz) else buf

theorem accepted_of_lt {idx : Nat} {buf : List UInt8} (h : idx = 0 → buf.length < sendbufsz) :
    accepted idx buf = buf := by
  rw [accepted, if_neg]
  intro hlong
  exact Nat.not_lt.mpr hlong.2 (h hlong.1)

theorem length_accepted_le (idx : Nat) (buf : List UInt8) :
    (accepted idx buf).length ≤ buf.length := by
  unfold accepted
  split
  · exact List.length_take_le' _ _
  · exact Nat.le_refl _

/-- A call that keeps the length of its argument is not the exception. -/
theorem lt_of_length_accepted {idx : Nat} {buf : List UInt8}
    (h : (accepted idx buf).length = buf.length) : idx = 0 → buf.length < sendbufsz := by
  intro hidx
  by_contra hlong
  have hle := Nat.le_of_not_lt hlong
  rw [accepted, if_pos ⟨hidx, hle⟩, List.length_take] at h
  have hpos := sendbufsz_pos
  omega

/-! ### One call -/

section Call

variable {s : SendBuffer} {buf : List UInt8}

/-- Less than the buffer has room for is copied behind what is there. -/
theorem sessionSend_fits (hs : s.Healthy) (hfits : s.sendBufIdx + buf.length < sendbufsz) :
    ∃ s', s.sessionSend buf = (s', .ok) ∧ s'.Healthy ∧ s'.stream = s.stream ++ buf
      ∧ s'.sendBufIdx = s.sendBufIdx + buf.length := by
  have hsend : s.sessionSend buf = ({ s with
      sendBuf := write s.sendBuf s.sendBufIdx buf
      sendBufIdx := s.sendBufIdx + buf.length
      idx_lt := hfits }, .ok) := by
    rw [sessionSend, dif_neg (Nat.not_le.mpr hfits)]
  refine ⟨_, hsend, hs, ?_, rfl⟩
  have hcopy := slice_write_append s.sendBuf 0 s.sendBufIdx buf
  rw [Nat.zero_add] at hcopy
  simp only [stream, hcopy, List.append_assoc]

/-- The part of `session_send` behind the head: whole blocks go to the socket, the tail into the buffer. -/
theorem blocks_and_tail {client : Outbound} (hclient : ∀ t ∈ client.outcomes, t.Succeeds)
    (sendBuf : Nat → UInt8) (blocks : Nat) {tail : Nat} (rest : List UInt8)
    (hrest : blocks * sendbufsz + tail ≤ rest.length) :
    ∃ left, (∀ t ∈ left, t.Succeeds)
      ∧ (if blocks ≠ 0 then sendBlock client (rest.take (blocks * sendbufsz)) else (client, .ok))
          = (⟨left, client.written ++ rest.take (blocks * sendbufsz)⟩, .ok)
      ∧ rest.take (blocks * sendbufsz)
          ++ slice (write sendBuf 0 ((rest.drop (blocks * sendbufsz)).take tail)) 0 tail
        = rest.take (blocks * sendbufsz + tail) := by
  have htail : ((rest.drop (blocks * sendbufsz)).take tail).length = tail := by
    rw [List.length_take, List.length_drop]
    omega
  have hslice := slice_write_self sendBuf 0 ((rest.drop (blocks * sendbufsz)).take tail)
  rw [htail] at hslice
  have hjoin : rest.take (blocks * sendbufsz)
      ++ slice (write sendBuf 0 ((rest.drop (blocks * sendbufsz)).take tail)) 0 tail
      = rest.take (blocks * sendbufsz + tail) := by
    rw [hslice, List.take_add]
  by_cases hblocks : blocks = 0
  · subst hblocks
    refine ⟨client.outcomes, hclient, ?_, hjoin⟩
    rw [if_neg (not_not.mpr rfl), Nat.zero_mul, List.take_zero, List.append_nil]
  · obtain ⟨left, hleft, hsend⟩ := sendBlock_succeeds hclient (rest.take (blocks * sendbufsz))
    exact ⟨left, hleft, by rw [if_pos hblocks, hsend], hjoin⟩

/-- At a fill level above zero the head completes the buffer, and nothing is lost. -/
theorem sessionSend_filled (hs : s.Healthy) (hidx : 0 < s.sendBufIdx)
    (hfull : sendbufsz ≤ s.sendBufIdx + buf.length) :
    ∃ s', s.sessionSend buf = (s', .ok) ∧ s'.Healthy ∧ s'.stream = s.stream ++ buf
      ∧ s'.sendBufIdx = (s.sendBufIdx + buf.length) % sendbufsz := by
  have hlt := s.idx_lt
  set head := sendbufsz - s.sendBufIdx with hhead
  set remaining := buf.length - head with hremaining
  have hlen : (buf.drop head).length = remaining := List.length_drop
  have hsplit : remaining / sendbufsz * sendbufsz + remaining % sendbufsz = remaining :=
    Nat.div_add_mod' _ _
  have hfilled : slice (write s.sendBuf s.sendBufIdx (buf.take head)) 0 sendbufsz
      = slice s.sendBuf 0 s.sendBufIdx ++ buf.take head := by
    have happend := slice_write_append s.sendBuf 0 s.sendBufIdx (buf.take head)
    have hsum : s.sendBufIdx + (buf.take head).length = sendbufsz := by
      rw [List.length_take]
      omega
    rw [Nat.zero_add, hsum] at happend
    exact happend
  obtain ⟨left₁, hleft₁, hsend₁⟩ := sendBlock_succeeds hs
    (slice (write s.sendBuf s.sendBufIdx (buf.take head)) 0 sendbufsz)
  obtain ⟨left₂, hleft₂, hsend₂, hjoin⟩ := @blocks_and_tail
    ⟨left₁, s.client.written ++ slice (write s.sendBuf s.sendBufIdx (buf.take head)) 0 sendbufsz⟩
    hleft₁ (write s.sendBuf s.sendBufIdx (buf.take head)) (remaining / sendbufsz)
    (remaining % sendbufsz) (buf.drop head) (by omega)
  rw [sessionSend, dif_pos hfull]
  simp only [if_pos hidx, ← hhead, ← hremaining, hsend₁, hsend₂, ne_eq, not_true_eq_false, if_false]
  refine ⟨_, rfl, hleft₂, ?_, ?_⟩
  · rw [hsplit] at hjoin
    simp only [stream, List.append_assoc, hjoin, hfilled]
    rw [← hlen, List.take_length, List.take_append_drop]
  · have htotal : s.sendBufIdx + buf.length = remaining + sendbufsz := by omega
    rw [htotal, Nat.add_mod_right]

/-- At an empty buffer the last bytes of an argument of a buffer's size or more are lost. -/
theorem sessionSend_empty (hs : s.Healthy) (hidx : s.sendBufIdx = 0)
    (hlong : sendbufsz ≤ buf.length) :
    ∃ s', s.sessionSend buf = (s', .ok) ∧ s'.Healthy
      ∧ s'.stream = s.stream ++ buf.take (buf.length - sendbufsz)
      ∧ s'.sendBufIdx = (s.sendBufIdx + buf.length) % sendbufsz := by
  have hfull : sendbufsz ≤ s.sendBufIdx + buf.length := by omega
  have hempty : ¬ 0 < s.sendBufIdx := by omega
  set remaining := buf.length - (sendbufsz - s.sendBufIdx) with hremaining
  have hlost : remaining = buf.length - sendbufsz := by omega
  have hstream : s.stream = s.client.written := by
    rw [stream, hidx, slice_zero, List.append_nil]
  have hsplit : remaining / sendbufsz * sendbufsz + remaining % sendbufsz = remaining :=
    Nat.div_add_mod' _ _
  obtain ⟨left, hleft, hsend, hjoin⟩ := blocks_and_tail hs s.sendBuf (remaining / sendbufsz) buf
    (show remaining / sendbufsz * sendbufsz + remaining % sendbufsz ≤ buf.length by omega)
  rw [sessionSend, dif_pos hfull]
  simp only [if_neg hempty, ← hremaining, hsend, ne_eq, not_true_eq_false, if_false]
  refine ⟨_, rfl, hleft, ?_, ?_⟩
  · rw [hsplit, hlost] at hjoin
    rw [hstream, ← hjoin, ← List.append_assoc, ← hlost]
    rfl
  · have htotal : s.sendBufIdx + buf.length = remaining + sendbufsz := by omega
    rw [htotal, Nat.add_mod_right]

/-- **One call.** It succeeds, appends what it accepts to the stream, and leaves the fill level of the
whole length modulo the size of the buffer. -/
theorem sessionSend_spec (hs : s.Healthy) (buf : List UInt8) :
    ∃ s', s.sessionSend buf = (s', .ok) ∧ s'.Healthy
      ∧ s'.stream = s.stream ++ accepted s.sendBufIdx buf
      ∧ s'.sendBufIdx = (s.sendBufIdx + buf.length) % sendbufsz := by
  have hlt := s.idx_lt
  by_cases hfull : sendbufsz ≤ s.sendBufIdx + buf.length
  · by_cases hidx : 0 < s.sendBufIdx
    · rw [accepted_of_lt fun hzero => absurd hzero hidx.ne']
      exact sessionSend_filled hs hidx hfull
    · have hzero : s.sendBufIdx = 0 := by omega
      have hlong : sendbufsz ≤ buf.length := by omega
      rw [accepted, if_pos ⟨hzero, hlong⟩]
      exact sessionSend_empty hs hzero hlong
  · have hfits := Nat.lt_of_not_le hfull
    rw [accepted_of_lt fun _ => by omega, Nat.mod_eq_of_lt hfits]
    exact sessionSend_fits hs hfits

end Call

theorem sessionFlush_spec {s : SendBuffer} (hs : s.Healthy) :
    ∃ s', s.sessionFlush = (s', .ok) ∧ s'.client.written = s.stream := by
  by_cases hidx : s.sendBufIdx = 0
  · refine ⟨s, by rw [sessionFlush, if_neg (not_not.mpr hidx)], ?_⟩
    rw [stream, hidx, slice_zero, List.append_nil]
  · obtain ⟨left, -, hsend⟩ := sendBlock_succeeds hs (slice s.sendBuf 0 s.sendBufIdx)
    rw [sessionFlush, if_pos hidx]
    simp only [hsend, ne_eq, not_true_eq_false, if_false]
    exact ⟨_, rfl, rfl⟩

/-! ### A run of calls -/

/-- What a run of calls appends to the stream. -/
def acceptedAll (idx : Nat) : List (List UInt8) → List UInt8
  | [] => []
  | buf :: bufs => accepted idx buf ++ acceptedAll ((idx + buf.length) % sendbufsz) bufs

theorem sends_spec {s : SendBuffer} (hs : s.Healthy) (bufs : List (List UInt8)) :
    ∃ s' statuses, s.sends bufs = (s', statuses) ∧ (∀ status ∈ statuses, status = .ok)
      ∧ s'.Healthy ∧ s'.stream = s.stream ++ acceptedAll s.sendBufIdx bufs := by
  induction bufs generalizing s with
  | nil => exact ⟨s, [], rfl, by simp, hs, (List.append_nil _).symm⟩
  | cons buf bufs ih =>
      obtain ⟨s₁, hsend, hs₁, hstream₁, hidx₁⟩ := sessionSend_spec hs buf
      obtain ⟨s', statuses, hsends, hok, hs', hstream'⟩ := ih hs₁
      refine ⟨s', .ok :: statuses, ?_, ?_, hs', ?_⟩
      · simp only [sends, hsend, hsends]
      · simpa using hok
      · rw [hstream', hstream₁, hidx₁, acceptedAll, List.append_assoc]

theorem length_acceptedAll_le (idx : Nat) (bufs : List (List UInt8)) :
    (acceptedAll idx bufs).length ≤ bufs.flatten.length := by
  induction bufs generalizing idx with
  | nil => exact Nat.le_refl 0
  | cons buf bufs ih =>
      rw [acceptedAll, List.flatten_cons, List.length_append, List.length_append]
      exact Nat.add_le_add (length_accepted_le idx buf) (ih _)

/-- No call of the run meets an empty buffer with at least a buffer's size of data. -/
def NeverEmptyAndLong (idx : Nat) (bufs : List (List UInt8)) : Prop :=
  ∀ before buf after, bufs = before ++ buf :: after →
    (idx + before.flatten.length) % sendbufsz = 0 → buf.length < sendbufsz

theorem neverEmptyAndLong_cons {idx : Nat} (hidx : idx < sendbufsz) {buf : List UInt8}
    {bufs : List (List UInt8)} :
    NeverEmptyAndLong idx (buf :: bufs) ↔
      (idx = 0 → buf.length < sendbufsz)
        ∧ NeverEmptyAndLong ((idx + buf.length) % sendbufsz) bufs := by
  constructor
  · intro h
    constructor
    · intro hzero
      apply h [] buf bufs rfl
      rw [hzero]
      rfl
    · intro before mid after hsplit hempty
      apply h (buf :: before) mid after (by rw [hsplit]; rfl)
      rw [Nat.mod_add_mod] at hempty
      rwa [List.flatten_cons, List.length_append, ← Nat.add_assoc]
  · intro ⟨hhead, htail⟩ before mid after hsplit hempty
    cases before with
    | nil =>
        rw [List.nil_append, List.cons.injEq] at hsplit
        rw [List.flatten_nil, List.length_nil, Nat.add_zero, Nat.mod_eq_of_lt hidx] at hempty
        rw [← hsplit.1]
        exact hhead hempty
    | cons first before =>
        rw [List.cons_append, List.cons.injEq] at hsplit
        obtain ⟨rfl, hrest⟩ := hsplit
        apply htail before mid after hrest
        rw [Nat.mod_add_mod]
        rwa [List.flatten_cons, List.length_append, ← Nat.add_assoc] at hempty

/-- Nothing is lost exactly when the exception does not occur. -/
theorem acceptedAll_eq_iff {idx : Nat} (hidx : idx < sendbufsz) (bufs : List (List UInt8)) :
    acceptedAll idx bufs = bufs.flatten ↔ NeverEmptyAndLong idx bufs := by
  induction bufs generalizing idx with
  | nil =>
      refine ⟨fun _ before buf after hsplit => ?_, fun _ => rfl⟩
      cases before <;> cases hsplit
  | cons buf bufs ih =>
      have hnext : (idx + buf.length) % sendbufsz < sendbufsz := Nat.mod_lt _ sendbufsz_pos
      rw [neverEmptyAndLong_cons hidx, ← ih hnext, acceptedAll, List.flatten_cons]
      constructor
      · intro heq
        have hlen := congrArg List.length heq
        rw [List.length_append, List.length_append] at hlen
        have hle := length_accepted_le idx buf
        have hrest := length_acceptedAll_le ((idx + buf.length) % sendbufsz) bufs
        have hsame : (accepted idx buf).length = buf.length := by omega
        exact ⟨lt_of_length_accepted hsame, (List.append_inj heq hsame).2⟩
      · intro ⟨hhead, htail⟩
        rw [accepted_of_lt hhead, htail]

/-- Calls of `session_send` and a flush write the arguments in order, behind what the buffer held; every
call succeeds, and the index stays below the size of the buffer. -/
def Transparent (s : SendBuffer) (bufs : List (List UInt8)) : Prop :=
  (∀ status ∈ (s.sends bufs).2, status = .ok)
    ∧ (s.sends bufs).1.sessionFlush.2 = .ok
    ∧ (s.sends bufs).1.sessionFlush.1.client.written = s.stream ++ bufs.flatten
    ∧ ∀ before after, bufs = before ++ after → (s.sends before).1.sendBufIdx < sendbufsz

theorem written_sends {s : SendBuffer} (hs : s.Healthy) (bufs : List (List UInt8)) :
    (s.sends bufs).1.sessionFlush.1.client.written = s.stream ++ acceptedAll s.sendBufIdx bufs := by
  obtain ⟨s', statuses, hsends, -, hs', hstream⟩ := sends_spec hs bufs
  obtain ⟨s'', hflush, hwritten⟩ := sessionFlush_spec hs'
  rw [hsends, hflush, hwritten, hstream]

/-- **Buffered sending is transparent** exactly when no call meets an empty buffer with at least a
buffer's size of data. -/
theorem transparent_iff {s : SendBuffer} (hs : s.Healthy) (bufs : List (List UInt8)) :
    s.Transparent bufs ↔ NeverEmptyAndLong s.sendBufIdx bufs := by
  rw [← acceptedAll_eq_iff s.idx_lt]
  constructor
  · intro ⟨_, _, hwritten, _⟩
    rw [written_sends hs] at hwritten
    exact List.append_cancel_left hwritten
  · intro hall
    obtain ⟨s', statuses, hsends, hok, hs', -⟩ := sends_spec hs bufs
    obtain ⟨s'', hflush, -⟩ := sessionFlush_spec hs'
    refine ⟨?_, ?_, ?_, fun before after _ => (s.sends before).1.idx_lt⟩
    · rw [hsends]
      exact hok
    · rw [hsends, hflush]
    · rw [written_sends hs, hall]

/-- A buffer with one byte, then an argument of three blocks: the socket takes the blocks in pieces. -/
theorem transparent_iff_filled :
    (fresh (fun _ => 0) [.moved 10, .interrupted]).Transparent
        [[1], List.replicate (3 * sendbufsz) 2]
      ↔ NeverEmptyAndLong 0 [[1], List.replicate (3 * sendbufsz) 2] :=
  transparent_iff (by
    intro t ht
    simp only [fresh, List.mem_cons, List.not_mem_nil, or_false] at ht
    rcases ht with rfl | rfl <;> decide) _

/-- A block of the buffer's size sent through a fresh session is lost. -/
theorem fresh_not_transparent :
    ¬ (fresh (fun _ => 0) []).Transparent [List.replicate sendbufsz 7] := by
  intro ⟨_, _, hwritten, _⟩
  rw [written_sends (by intro t ht; cases ht)] at hwritten
  have hlen := congrArg List.length (List.append_cancel_left hwritten)
  have hlost : acceptedAll (fresh (fun _ => 0) []).sendBufIdx [List.replicate sendbufsz (7 : UInt8)]
      = [] := by
    simp only [acceptedAll, accepted, fresh, List.length_replicate, true_and, Nat.le_refl, if_true,
      Nat.sub_self, List.take_zero, List.append_nil]
  rw [hlost] at hlen
  simp only [List.length_nil, List.flatten_cons, List.flatten_nil, List.append_nil,
    List.length_replicate] at hlen
  exact absurd hlen sendbufsz_pos.ne

end SendBuffer

end Scroller
