import Scroller.Lib.Machine
import Scroller.Scrc

/-!
# The receive buffer

The bytes between the read position and the fill level, followed by what has not arrived yet, are the view
of the stream: a refill moves its bytes around and leaves it as it is, and a block is taken from its front.
Compaction comes early enough, so that `recv` always has space.
-/

namespace Scroller.ScrcConnection

open ByteMemory

/-- What is left to read. -/
def view (conn : ScrcConnection) : List UInt8 :=
  slice conn.rbuf conn.rpos (conn.rlen - conn.rpos) ++ conn.sockfd.arriving

theorem length_view (conn : ScrcConnection) : conn.view.length = conn.left := by
  rw [view, List.length_append, length_slice, left]

/-- The positions lie inside the buffer. -/
structure Bounded (conn : ScrcConnection) : Prop where
  rpos_le : conn.rpos ≤ conn.rlen
  rlen_le : conn.rlen ≤ fullsz

/-- What a refill leaves as it was, whether it succeeds or not. -/
structure Kept (conn conn' : ScrcConnection) : Prop where
  bounded : conn'.Bounded
  view : conn'.view = conn.view
  rpos_le : conn'.rpos ≤ conn.rpos
  status : conn'.status = conn.status
  columns : conn'.columns = conn.columns
  body : conn'.body = conn.body
  outcomes : ∀ t ∈ conn'.sockfd.outcomes, t ∈ conn.sockfd.outcomes
  asked : ∀ n ∈ conn'.sockfd.asked, 0 < n ∨ n ∈ conn.sockfd.asked

theorem Kept.refl {conn : ScrcConnection} (h : conn.Bounded) : Kept conn conn :=
  ⟨h, rfl, Nat.le_refl _, rfl, rfl, rfl, fun _ ht => ht, fun _ hn => Or.inr hn⟩

theorem Kept.trans {conn conn' conn'' : ScrcConnection} (h : Kept conn conn')
    (h' : Kept conn' conn'') : Kept conn conn'' where
  bounded := h'.bounded
  view := h'.view.trans h.view
  rpos_le := h'.rpos_le.trans h.rpos_le
  status := h'.status.trans h.status
  columns := h'.columns.trans h.columns
  body := h'.body.trans h.body
  outcomes t ht := h.outcomes t (h'.outcomes t ht)
  asked n hn := (h'.asked n hn).elim Or.inl (h.asked n)

section Refill

variable {conn : ScrcConnection}

theorem compact_of_le (h : conn.rlen ≤ bufsz) : conn.compact = conn := by
  rw [compact, if_neg]
  have hfull : fullsz = bufsz + reservesz := rfl
  omega

/-- Compaction keeps the view and leaves more space than the largest block needs. -/
theorem compact_spec (h : conn.Bounded) :
    Kept conn conn.compact ∧ conn.compact.rlen - conn.compact.rpos = conn.rlen - conn.rpos
      ∧ (conn.rlen - conn.rpos < bufsz → 0 < fullsz - conn.compact.rlen)
      ∧ conn.compact.sockfd = conn.sockfd := by
  have hfull : fullsz = bufsz + reservesz := rfl
  have hreserve : 0 < reservesz := by decide
  have hpos := h.rpos_le
  have hlen := h.rlen_le
  by_cases hspace : fullsz - conn.rlen < reservesz
  · have hmoved : slice (if 0 < conn.rlen - conn.rpos ∧ 0 < conn.rpos then
          move conn.rbuf 0 conn.rpos (conn.rlen - conn.rpos) else conn.rbuf) 0
          (conn.rlen - conn.rpos)
        = slice conn.rbuf conn.rpos (conn.rlen - conn.rpos) := by
      split
      · exact slice_move_self _ _ _ _
      · rename_i hno
        rcases Nat.eq_zero_or_pos conn.rpos with hzero | hpos'
        · rw [hzero]
        · have hvalid : conn.rlen - conn.rpos = 0 := by omega
          rw [hvalid, slice_zero, slice_zero]
    rw [compact, if_pos hspace]
    refine ⟨⟨⟨Nat.zero_le _, ?_⟩, ?_, Nat.zero_le _, rfl, rfl, rfl, fun _ ht => ht,
      fun _ hn => Or.inr hn⟩, rfl, ?_, rfl⟩
    · show conn.rlen - conn.rpos ≤ fullsz
      omega
    · simp only [view, Nat.sub_zero, hmoved]
    · intro hvalid
      show 0 < fullsz - (conn.rlen - conn.rpos)
      omega
  · rw [compact, if_neg hspace]
    exact ⟨Kept.refl h, rfl, fun _ => by omega, rfl⟩

/-- How `recv` ends: it brings some of what is arriving, or the stream has ended or a call failed. -/
def Brings (space : Nat) (arriving : List UInt8) (outcomes : List Transfer) (sockfd : Inbound) :
    Except UInt32 (List UInt8) → Prop
  | .ok bytes =>
      0 < bytes.length ∧ bytes.length ≤ space ∧ bytes ++ sockfd.arriving = arriving
  | .error ret =>
      sockfd.arriving = arriving
        ∧ (ret = scrcConnectionClosed ∧ arriving = [] ∨ ∃ t ∈ outcomes, ¬ t.Succeeds)

theorem recvBytes_spec {n space : Nat} (hn : 0 < n) (hle : n ≤ space) (sockfd : Inbound)
    (outcomes : List Transfer) :
    Brings space sockfd.arriving outcomes (recvBytes n sockfd).1 (recvBytes n sockfd).2
      ∧ (recvBytes n sockfd).1.outcomes = sockfd.outcomes
      ∧ (recvBytes n sockfd).1.asked = sockfd.asked := by
  unfold recvBytes
  split
  · rename_i hnil
    exact ⟨⟨rfl, Or.inl ⟨rfl, (List.take_eq_nil_iff.mp hnil).resolve_left hn.ne'⟩⟩, rfl, rfl⟩
  · rename_i hne
    refine ⟨⟨List.length_pos_of_ne_nil hne, ?_, List.take_append_drop _ _⟩, rfl, rfl⟩
    exact (List.length_take_le _ _).trans hle

theorem recvLoop_spec {space : Nat} (hspace : 0 < space) (arriving : List UInt8)
    (outcomes : List Transfer) (asked : List Nat) :
    Brings space arriving outcomes (recvLoop space arriving outcomes asked).1
        (recvLoop space arriving outcomes asked).2
      ∧ (∀ t ∈ (recvLoop space arriving outcomes asked).1.outcomes, t ∈ outcomes)
      ∧ ∀ n ∈ (recvLoop space arriving outcomes asked).1.asked, 0 < n ∨ n ∈ asked := by
  have hasked : ∀ n ∈ space :: asked, 0 < n ∨ n ∈ asked := by
    intro n hn
    rcases List.mem_cons.mp hn with rfl | hn
    · exact Or.inl hspace
    · exact Or.inr hn
  induction outcomes generalizing asked with
  | nil =>
      obtain ⟨hbrings, houtcomes, hsame⟩ :=
        recvBytes_spec hspace (Nat.le_refl space) ⟨[], arriving, space :: asked⟩ []
      rw [recvLoop]
      refine ⟨hbrings, by rw [houtcomes]; exact fun _ ht => ht, ?_⟩
      rw [hsame]
      exact hasked
  | cons t outcomes ih =>
      have htail : ∀ t' ∈ outcomes, t' ∈ t :: outcomes := fun t' ht => List.mem_cons_of_mem t ht
      cases t with
      | interrupted =>
          obtain ⟨hbrings, houtcomes, hsame⟩ := ih (space :: asked) (fun n hn => by
            rcases List.mem_cons.mp hn with rfl | hn
            · exact Or.inl hspace
            · exact Or.inr hn)
          rw [recvLoop]
          refine ⟨?_, fun t ht => htail t (houtcomes t ht), fun n hn => ?_⟩
          · generalize recvLoop space arriving outcomes (space :: asked) = result at hbrings
            obtain ⟨sockfd, ret | bytes⟩ := result
            · obtain ⟨hsame, hended | ⟨t, ht, hfail⟩⟩ := hbrings
              · exact ⟨hsame, Or.inl hended⟩
              · exact ⟨hsame, Or.inr ⟨t, htail t ht, hfail⟩⟩
            · exact hbrings
          · exact (hsame n hn).elim Or.inl (hasked n)
      | failed =>
          exact ⟨⟨rfl, Or.inr ⟨.failed, List.mem_cons_self, fun hcontra => hcontra⟩⟩, htail, hasked⟩
      | closed =>
          exact ⟨⟨rfl, Or.inr ⟨.closed, List.mem_cons_self, fun hcontra => hcontra⟩⟩, htail, hasked⟩
      | moved more =>
          obtain ⟨hbrings, houtcomes, hsame⟩ := recvBytes_spec
            (show 0 < min (more + 1) space by omega) (Nat.min_le_right (more + 1) space)
            ⟨outcomes, arriving, space :: asked⟩ (.moved more :: outcomes)
          rw [recvLoop]
          refine ⟨hbrings, by rw [houtcomes]; exact htail, ?_⟩
          rw [hsame]
          exact hasked

/-- **One refill.** It keeps the view; where it succeeds there are more bytes to read, and where it fails
nothing was arriving any more or a call failed. -/
theorem recvRefill_spec (h : conn.Bounded) (hvalid : conn.rlen - conn.rpos < bufsz) :
    ∃ conn' r, conn.recvRefill = (conn', r) ∧ Kept conn conn'
      ∧ match r with
        | .ok () => conn.rlen - conn.rpos < conn'.rlen - conn'.rpos
        | .error ret => ret = scrcConnectionClosed ∧ conn.view.length = conn.rlen - conn.rpos
            ∨ ∃ t ∈ conn.sockfd.outcomes, ¬ t.Succeeds := by
  obtain ⟨hkept, hlen, hspace, hsock⟩ := compact_spec h
  obtain ⟨hbrings, houtcomes, hasked⟩ := recvLoop_spec (hspace hvalid) conn.compact.sockfd.arriving
    conn.compact.sockfd.outcomes conn.compact.sockfd.asked
  have hpos := hkept.bounded.rpos_le
  have hfull := hkept.bounded.rlen_le
  rw [recvRefill]
  generalize recvLoop (fullsz - conn.compact.rlen) conn.compact.sockfd.arriving
    conn.compact.sockfd.outcomes conn.compact.sockfd.asked = result at hbrings houtcomes hasked
  obtain ⟨sockfd, ret | bytes⟩ := result
  · obtain ⟨harriving, hended⟩ := hbrings
    refine ⟨_, _, rfl, hkept.trans ⟨⟨hpos, hfull⟩, ?_, Nat.le_refl _, rfl, rfl, rfl,
      houtcomes, hasked⟩, ?_⟩
    · simp only [view]
      rw [← harriving]
    · rw [hsock] at hended
      refine hended.imp (fun hclosed => ⟨hclosed.1, ?_⟩) id
      rw [length_view, left, hclosed.2, List.length_nil, Nat.add_zero]
  · obtain ⟨hpositive, hfits, harriving⟩ := hbrings
    have hadd : conn.compact.rlen + bytes.length - conn.compact.rpos
        = conn.compact.rlen - conn.compact.rpos + bytes.length := by omega
    have hend : conn.compact.rpos + (conn.compact.rlen - conn.compact.rpos) = conn.compact.rlen := by
      omega
    refine ⟨_, _, rfl, hkept.trans ⟨⟨?_, ?_⟩, ?_, Nat.le_refl _, rfl, rfl, rfl, houtcomes,
      hasked⟩, ?_⟩
    · show conn.compact.rpos ≤ conn.compact.rlen + bytes.length
      omega
    · show conn.compact.rlen + bytes.length ≤ fullsz
      omega
    · have happend := slice_write_append conn.compact.rbuf conn.compact.rpos
        (conn.compact.rlen - conn.compact.rpos) bytes
      rw [hend] at happend
      simp only [view, hadd, happend, List.append_assoc, harriving]
    · show conn.rlen - conn.rpos < conn.compact.rlen + bytes.length - conn.compact.rpos
      omega

/-- The loop of `recv_block` ends with the bytes it waits for, or because none will come. -/
theorem recvBlockLoop_spec {size : Nat} (hsize : size ≤ bufsz) (fuel : Nat) (h : conn.Bounded)
    (hfuel : size - (conn.rlen - conn.rpos) ≤ fuel) :
    ∃ conn' r, recvBlockLoop size fuel conn = .ok (conn', r) ∧ Kept conn conn'
      ∧ match r with
        | .ok () => size ≤ conn'.rlen - conn'.rpos
        | .error ret => ret = scrcConnectionClosed ∧ conn.view.length < size
            ∨ ∃ t ∈ conn.sockfd.outcomes, ¬ t.Succeeds := by
  induction fuel generalizing conn with
  | zero =>
      have henough : ¬ conn.rlen - conn.rpos < size := by omega
      rw [recvBlockLoop, if_neg henough]
      exact ⟨conn, .ok (), rfl, Kept.refl h, by omega⟩
  | succ fuel ih =>
      by_cases hwait : conn.rlen - conn.rpos < size
      · obtain ⟨conn₁, r, hrefill, hkept, hr⟩ := recvRefill_spec h (by omega)
        rw [recvBlockLoop, if_pos hwait, hrefill]
        cases r with
        | error ret =>
            refine ⟨conn₁, .error ret, rfl, hkept, ?_⟩
            refine hr.imp (fun hclosed => ⟨hclosed.1, ?_⟩) id
            rw [hclosed.2]
            exact hwait
        | ok _ =>
            obtain ⟨conn', r', hloop, hkept', hr'⟩ := ih hkept.bounded (by omega)
            refine ⟨conn', r', hloop, hkept.trans hkept', ?_⟩
            cases r' with
            | ok _ => exact hr'
            | error ret =>
                rw [hkept.view] at hr'
                exact hr'.imp id fun ⟨t, ht, hfail⟩ => ⟨t, hkept.outcomes t ht, hfail⟩
      · rw [recvBlockLoop, if_neg hwait]
        exact ⟨conn, .ok (), rfl, Kept.refl h, by omega⟩

/-- What `recv_block` does to the view: a block is taken from its front, or it stays. -/
def Takes (conn : ScrcConnection) (size : Nat) (conn' : ScrcConnection) : Except UInt32 Nat → Prop
  | .ok p =>
      size ≤ bufsz ∧ size ≤ conn.view.length ∧ slice conn'.rbuf p size = conn.view.take size
        ∧ conn'.view = conn.view.drop size ∧ p + size = conn'.rpos
  | .error ret =>
      conn'.view = conn.view
        ∧ (bufsz < size ∧ ret = scrcBufferOverflow
          ∨ size ≤ bufsz
            ∧ (ret = scrcConnectionClosed ∧ conn.view.length < size
              ∨ ∃ t ∈ conn.sockfd.outcomes, ¬ t.Succeeds))

/-- What `recv_block` leaves as it was. The read position moves by no more than what is taken. -/
structure Framed (conn conn' : ScrcConnection) : Prop where
  bounded : conn'.Bounded
  front : conn'.rpos + conn'.view.length ≤ conn.rpos + conn.view.length
  status : conn'.status = conn.status
  columns : conn'.columns = conn.columns
  body : conn'.body = conn.body
  outcomes : ∀ t ∈ conn'.sockfd.outcomes, t ∈ conn.sockfd.outcomes
  asked : ∀ n ∈ conn'.sockfd.asked, 0 < n ∨ n ∈ conn.sockfd.asked

theorem Kept.framed {conn conn' : ScrcConnection} (h : Kept conn conn') : Framed conn conn' :=
  ⟨h.bounded, by rw [h.view]; exact Nat.add_le_add_right h.rpos_le _, h.status, h.columns, h.body,
    h.outcomes, h.asked⟩

/-- **One block.** `recv_block` always ends, inside the buffer, and takes the front of the view. -/
theorem recvBlock_spec (h : conn.Bounded) (size : Nat) :
    ∃ conn' r, conn.recvBlock size = .ok (conn', r) ∧ Framed conn conn'
      ∧ conn.Takes size conn' r := by
  unfold recvBlock
  by_cases hsize : bufsz < size
  · rw [if_pos hsize]
    exact ⟨conn, _, rfl, (Kept.refl h).framed, rfl, Or.inl ⟨hsize, rfl⟩⟩
  · have hle := Nat.le_of_not_lt hsize
    obtain ⟨conn₁, r, hloop, hkept, hr⟩ := recvBlockLoop_spec hle size h (Nat.sub_le _ _)
    rw [if_neg hsize, hloop]
    cases r with
    | error ret =>
        exact ⟨conn₁, _, rfl, hkept.framed, hkept.view, Or.inr ⟨hle, hr⟩⟩
    | ok _ =>
        have henough : size ≤ conn₁.rlen - conn₁.rpos := hr
        have hpos := hkept.bounded.rpos_le
        have hfull := hkept.bounded.rlen_le
        have hfront : size ≤ (slice conn₁.rbuf conn₁.rpos (conn₁.rlen - conn₁.rpos)).length := by
          rw [length_slice]
          exact henough
        refine ⟨_, _, rfl, ⟨⟨?_, hfull⟩, ?_, hkept.status, hkept.columns, hkept.body, hkept.outcomes,
          hkept.asked⟩, hle, ?_, ?_, ?_, rfl⟩
        · show conn₁.rpos + size ≤ conn₁.rlen
          omega
        · have hmoved := hkept.rpos_le
          rw [← hkept.view, length_view, length_view, left, left]
          show conn₁.rpos + size + (conn₁.rlen - (conn₁.rpos + size) + conn₁.sockfd.arriving.length)
            ≤ conn.rpos + (conn₁.rlen - conn₁.rpos + conn₁.sockfd.arriving.length)
          omega
        · rw [← hkept.view, length_view, left]
          omega
        · rw [← hkept.view, view, List.take_append_of_le_length hfront, take_slice _ _ henough]
        · rw [← hkept.view, view, view, List.drop_append_of_le_length hfront,
            drop_slice _ _ henough]
          simp only [Nat.sub_add_eq]

end Refill

/-! ### Runs of requests -/

/-- One request, with the bytes of the block it returns. -/
def blockStep (conn : ScrcConnection) (size : Nat) :
    Except Fault (ScrcConnection × Except UInt32 (List UInt8)) := do
  let (conn, r) ← conn.recvBlock size
  return (conn, r.map fun p => slice conn.rbuf p size)

/-- How many bytes a run of requests returned. -/
def received (hist : List (Nat × Except UInt32 (List UInt8))) : Nat :=
  (hist.map fun x => match x.2 with
    | .ok _ => x.1
    | .error _ => 0).sum

/-- The answer to a request of `size` bytes where `rest` is left of the stream. -/
def Answers (outcomes : List Transfer) (rest : List UInt8) (size : Nat) :
    Except UInt32 (List UInt8) → Prop
  | .ok block => block = rest.take size ∧ size ≤ rest.length
  | .error ret =>
      ret = scrcConnectionClosed ∧ rest.length < size ∨ ∃ t ∈ outcomes, ¬ t.Succeeds

/-- The connection has read what the history returned, and `recv` was never called without space. -/
structure Reads (outcomes : List Transfer) (stream : List UInt8)
    (hist : List (Nat × Except UInt32 (List UInt8))) (conn : ScrcConnection) : Prop where
  bounded : conn.Bounded
  view : conn.view = stream.drop (received hist)
  outcomes : ∀ t ∈ conn.sockfd.outcomes, t ∈ outcomes
  asked : ∀ n ∈ conn.sockfd.asked, 0 < n

theorem received_append (hist : List (Nat × Except UInt32 (List UInt8))) (size : Nat)
    (r : Except UInt32 (List UInt8)) :
    received (hist ++ [(size, r)]) = received hist + match r with
      | .ok _ => size
      | .error _ => 0 := by
  simp [received]

theorem reads_fresh (rbuf : Nat → UInt8) (outcomes : List Transfer) (stream : List UInt8) :
    Reads outcomes stream [] (fresh rbuf outcomes stream) := by
  refine ⟨⟨Nat.le_refl _, Nat.zero_le _⟩, rfl, fun _ ht => ht, fun n hn => ?_⟩
  cases hn

theorem blockStep_spec {outcomes : List Transfer} {stream : List UInt8}
    {hist : List (Nat × Except UInt32 (List UInt8))} {conn : ScrcConnection}
    (h : Reads outcomes stream hist conn) {size : Nat} (hsize : size ≤ bufsz) :
    ∃ conn' reply, conn.blockStep size = .ok (conn', reply)
      ∧ Reads outcomes stream (hist ++ [(size, reply)]) conn'
      ∧ Answers outcomes (stream.drop (received hist)) size reply := by
  obtain ⟨conn', r, hblock, hframed, htakes⟩ := recvBlock_spec h.bounded size
  have houtcomes : ∀ t ∈ conn'.sockfd.outcomes, t ∈ outcomes :=
    fun t ht => h.outcomes t (hframed.outcomes t ht)
  have hasked : ∀ n ∈ conn'.sockfd.asked, 0 < n :=
    fun n hn => (hframed.asked n hn).elim id (h.asked n)
  refine ⟨conn', r.map fun p => slice conn'.rbuf p size, by rw [blockStep, hblock]; rfl, ?_⟩
  cases r with
  | ok p =>
      obtain ⟨-, hlen, hslice, hview, -⟩ := htakes
      refine ⟨⟨hframed.bounded, ?_, houtcomes, hasked⟩, ?_, ?_⟩
      · rw [received_append, hview, h.view, List.drop_drop]
        rfl
      · rw [← h.view]
        exact hslice
      · rwa [← h.view]
  | error ret =>
      obtain ⟨hview, hbig | ⟨-, hended⟩⟩ := htakes
      · exact absurd hbig.1 (Nat.not_lt.mpr hsize)
      · refine ⟨⟨hframed.bounded, ?_, houtcomes, hasked⟩, ?_⟩
        · rw [received_append, hview, h.view]
          rfl
        · rw [← h.view]
          exact hended.imp id fun ⟨t, ht, hfail⟩ => ⟨t, h.outcomes t ht, hfail⟩

/-- **The receive buffer refines the stream.** After every run of requests of at most `BUFSZ` bytes, the next
one returns the next bytes of the stream, unless the stream ends in front of them or a `recv` fails; the
positions stay inside the buffer, and `recv` always has space. -/
theorem recvBlock_refines_stream (rbuf : Nat → UInt8) (outcomes : List Transfer)
    (stream : List UInt8) (sizes : List Nat) (hsizes : ∀ n ∈ sizes, n ≤ bufsz) (size : Nat)
    (hsize : size ≤ bufsz) :
    ∃ conn hist conn' reply,
      Machine.exec blockStep (fresh rbuf outcomes stream) sizes = .ok (conn, hist)
      ∧ conn.blockStep size = .ok (conn', reply)
      ∧ Answers outcomes (stream.drop (received hist)) size reply
      ∧ conn'.rpos ≤ conn'.rlen ∧ conn'.rlen ≤ fullsz ∧ ∀ n ∈ conn'.sockfd.asked, 0 < n := by
  obtain ⟨conn, hist, hexec, hreads⟩ := Machine.exec_progress (Reads outcomes stream)
    (fun n => n ≤ bufsz) []
    (fun hist conn size hreads hsize => by
      obtain ⟨conn', reply, hstep, hreads', -⟩ := blockStep_spec hreads hsize
      exact ⟨conn', reply, hstep, hreads'⟩)
    (reads_fresh rbuf outcomes stream) hsizes
  rw [List.nil_append] at hreads
  obtain ⟨conn', reply, hstep, hreads', hanswers⟩ := blockStep_spec hreads hsize
  exact ⟨conn, hist, conn', reply, hexec, hstep, hanswers, hreads'.bounded.rpos_le,
    hreads'.bounded.rlen_le, hreads'.asked⟩

/-- Two requests out of a stream that arrives in pieces. -/
theorem recvBlock_refines_pieces :
    ∃ conn hist conn' reply,
      Machine.exec blockStep (fresh (fun _ => 0) [.moved 0, .interrupted] [1, 2, 3, 4]) [3]
        = .ok (conn, hist)
      ∧ conn.blockStep 1 = .ok (conn', reply)
      ∧ Answers [.moved 0, .interrupted] (([1, 2, 3, 4] : List UInt8).drop (received hist)) 1 reply
      ∧ conn'.rpos ≤ conn'.rlen ∧ conn'.rlen ≤ fullsz ∧ ∀ n ∈ conn'.sockfd.asked, 0 < n :=
  recvBlock_refines_stream (fun _ => 0) [.moved 0, .interrupted] [1, 2, 3, 4] [3]
    (by simp [bufsz]) 1 (by simp [bufsz])

end Scroller.ScrcConnection
