import Scroller.Decoder
import Scroller.Proof.RecvBuffer

/-!
# The client library decodes the stream

Every read of the library returns what the decoder reads off the view, and leaves the view where the decoder
leaves the stream. For blocks, commands and rows this holds wherever the buffer is compacted. A header line
keeps pointers to what it has read, so it holds for a line during which nothing is compacted.
-/

namespace Scroller.ScrcConnection

open ByteMemory

/-- The positions lie inside the buffer, and every `recv` moves something. -/
structure Healthy (conn : ScrcConnection) : Prop where
  bounded : conn.Bounded
  succeeds : ∀ t ∈ conn.sockfd.outcomes, t.Succeeds

/-- A read changes nothing a caller knows, and moves on by no more than what it takes. -/
structure Unchanged (conn conn' : ScrcConnection) : Prop where
  healthy : conn'.Healthy
  front : conn'.rpos + conn'.view.length ≤ conn.rpos + conn.view.length
  status : conn'.status = conn.status
  columns : conn'.columns = conn.columns
  body : conn'.body = conn.body

theorem Unchanged.trans {conn conn' conn'' : ScrcConnection} (h : Unchanged conn conn')
    (h' : Unchanged conn' conn'') : Unchanged conn conn'' :=
  ⟨h'.healthy, h'.front.trans h.front, h'.status.trans h.status, h'.columns.trans h.columns,
    h'.body.trans h.body⟩

/-! ### Blocks, commands and rows -/

section Blocks

variable {conn : ScrcConnection}

theorem recvBlock_decodes (h : conn.Healthy) (size : Nat) :
    ∃ conn' r, conn.recvBlock size = .ok (conn', r) ∧ Unchanged conn conn'
      ∧ conn'.view = (Decoder.block size conn.view).2
      ∧ (r.map fun p => slice conn'.rbuf p size) = (Decoder.block size conn.view).1
      ∧ ∀ p, r = .ok p → p + size = conn'.rpos := by
  obtain ⟨conn', r, hblock, hframed, htakes⟩ := recvBlock_spec h.bounded size
  have hunchanged : Unchanged conn conn' :=
    ⟨⟨hframed.bounded, fun t ht => h.succeeds t (hframed.outcomes t ht)⟩, hframed.front,
      hframed.status, hframed.columns, hframed.body⟩
  refine ⟨conn', r, hblock, hunchanged, ?_⟩
  cases r with
  | ok p =>
      obtain ⟨hsize, hlen, hslice, hview, hend⟩ := htakes
      rw [Decoder.block, if_neg (Nat.not_lt.mpr hsize), if_neg (Nat.not_lt.mpr hlen)]
      refine ⟨hview, congrArg Except.ok hslice, fun p' hp => ?_⟩
      cases hp
      exact hend
  | error ret =>
      obtain ⟨hview, ⟨hbig, rfl⟩ | ⟨hsize, ⟨rfl, hshort⟩ | ⟨t, ht, hfail⟩⟩⟩ := htakes
      · rw [Decoder.block, if_pos hbig]
        exact ⟨hview, rfl, fun p hp => by cases hp⟩
      · rw [Decoder.block, if_neg (Nat.not_lt.mpr hsize), if_pos hshort]
        exact ⟨hview, rfl, fun p hp => by cases hp⟩
      · exact absurd (h.succeeds t ht) hfail

theorem recvBlock_one_cons (h : conn.Healthy) {b : UInt8} {s : List UInt8} (hview : conn.view = b :: s) :
    ∃ conn' p, conn.recvBlock 1 = .ok (conn', .ok p) ∧ Unchanged conn conn' ∧ conn'.view = s
      ∧ conn'.rbuf p = b ∧ p + 1 = conn'.rpos ∧ p ≤ conn.rpos := by
  obtain ⟨conn', r, hblock, hunchanged, hrest, hbytes, hend⟩ := recvBlock_decodes h 1
  have hone : ¬ bufsz < 1 := by decide
  rw [Decoder.block, hview, if_neg hone, if_neg (show ¬ (b :: s).length < 1 by simp)] at hrest hbytes
  cases r with
  | error ret => cases hbytes
  | ok p =>
      have hslice : slice conn'.rbuf p 1 = [b] := Except.ok.inj hbytes
      rw [slice_succ] at hslice
      have hrest' : conn'.view = s := hrest
      have hfront := hunchanged.front
      rw [hrest', hview, List.length_cons] at hfront
      have hpos := hend p rfl
      exact ⟨conn', p, hblock, hunchanged, hrest', (List.cons.inj hslice).1, hpos, by omega⟩

theorem recvCmd_decodes (h : conn.Healthy) :
    ∃ conn' r, conn.recvCmd = .ok (conn', r) ∧ Unchanged conn conn'
      ∧ conn'.view = (Decoder.cmd conn.view).2 ∧ r = (Decoder.cmd conn.view).1 := by
  obtain ⟨conn', r, hblock, hunchanged, hview, hbytes, -⟩ := recvBlock_decodes h sizeofScrcCmd
  rw [recvCmd, hblock, Decoder.cmd]
  generalize Decoder.block sizeofScrcCmd conn.view = decoded at hview hbytes
  obtain ⟨bytes, rest⟩ := decoded
  cases r with
  | error ret =>
      cases hbytes
      exact ⟨conn', _, rfl, hunchanged, hview, rfl⟩
  | ok p =>
      cases hbytes
      exact ⟨conn', _, rfl, hunchanged, hview, rfl⟩

/-- A row is decoded, and its pointer stays in front of the read position. -/
theorem recvRow_decodes (h : conn.Healthy) :
    ∃ conn' r, conn.recvRow = .ok (conn', r) ∧ Unchanged conn conn'
      ∧ conn'.view = (Decoder.row conn.view).2
      ∧ (r.map fun row => slice conn'.rbuf row.1 row.2) = (Decoder.row conn.view).1
      ∧ ∀ row, r = .ok row → row.1 + row.2 = conn'.rpos := by
  obtain ⟨conn₁, r, hcmd, hunchanged₁, hview₁, rfl⟩ := recvCmd_decodes h
  rw [recvRow, hcmd, Decoder.row]
  generalize Decoder.cmd conn.view = decoded at hview₁ hcmd
  obtain ⟨ret, rest⟩ := decoded
  subst hview₁
  simp only [bind, Except.bind]
  by_cases hend : ret.toOption.getD 0 = scrcCmdEnd
  · rw [if_pos hend, if_pos hend]
    exact ⟨conn₁, _, rfl, hunchanged₁, rfl, rfl, fun _ hp => by cases hp⟩
  · rw [if_neg hend, if_neg hend]
    by_cases hrow : ret.toOption.getD 0 ≠ scrcCmdRow
    · rw [if_pos hrow, if_pos hrow]
      exact ⟨conn₁, _, rfl, hunchanged₁, rfl, rfl, fun _ hp => by cases hp⟩
    · rw [if_neg hrow, if_neg hrow]
      obtain ⟨conn₂, r₂, hsize, hunchanged₂, hview₂, hbytes₂, -⟩ :=
        recvBlock_decodes hunchanged₁.healthy sizeofSizeT
      rw [hsize]
      generalize Decoder.block sizeofSizeT conn₁.view = decoded₂ at hview₂ hbytes₂
      obtain ⟨bytes₂, rest₂⟩ := decoded₂
      subst hview₂
      cases r₂ with
      | error ret =>
          cases hbytes₂
          exact ⟨conn₂, _, rfl, hunchanged₁.trans hunchanged₂, rfl, rfl, fun _ hp => by cases hp⟩
      | ok p₂ =>
          cases hbytes₂
          obtain ⟨conn₃, r₃, hbody, hunchanged₃, hview₃, hbytes₃, hpos₃⟩ := recvBlock_decodes
            hunchanged₂.healthy (LittleEndian.ofBytes (slice conn₂.rbuf p₂ sizeofSizeT))
          have hall := (hunchanged₁.trans hunchanged₂).trans hunchanged₃
          simp only [Except.map, hbody]
          cases r₃ with
          | error ret => exact ⟨conn₃, _, rfl, hall, hview₃, hbytes₃, fun _ hp => by cases hp⟩
          | ok p₃ =>
              refine ⟨conn₃, _, rfl, hall, hview₃, hbytes₃, fun row hrow => ?_⟩
              cases hrow
              exact hpos₃ p₃ rfl

end Blocks

end Scroller.ScrcConnection
