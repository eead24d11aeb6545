import Rrdtool.Lib.Slice
import Rrdtool.Protocol.Response

/-!
# Receiving a line

`recvline` (`src/rrd_client.c`) on the memory of the client, for any results of `recv`: the bytes in `_inbuf` are
overwritten by each chunk, and the number of unused ones is a `size_t` that also takes the -1 of an error. When the line
is complete before the stream ends, this is the `recvline` on lists (`loop_complete`); `recvline_faithful_iff` says when
the caller can rely on it.
-/

namespace Rrdtool

open Slice

/-- What `recv` returns: some bytes, 0 at the end of the stream, -1 for an error. -/
inductive RecvResult where
  | data (chunk : { chunk : Text // chunk ≠ [] }) (fits : chunk.1.length ≤ rrdCmdMax)
  | eof
  | error

/-- The bytes that are received. -/
def RecvResult.bytes : RecvResult → Text
  | .data chunk _ => chunk
  | _ => []

def RecvResult.isData : RecvResult → Bool
  | .data _ _ => true
  | _ => false

/-- `rrd_client_t`: the memory from `_inbuf` on, the place of `inbuf` in it unless it is `NULL`, and `inbuf_used`. -/
structure RrdClient where
  mem : ℕ → Char
  inbuf : Option ℕ
  inbufUsed : ℕ

/-- `recv(client->sd, client->inbuf, RRD_CMD_MAX, 0)`, with `inbuf` at the beginning of `_inbuf`. -/
@[grind] def RrdClient.receive (c : RrdClient) (r : RecvResult) : RrdClient where
  mem := fun i => r.bytes.getD i (c.mem i)
  inbuf := some 0
  inbufUsed := match r with
    | .data chunk _ => chunk.1.length
    | .eof => 0
    | .error => u64 (-1)

/-- The bytes up to a newline, at most `n`, are taken out of the buffer; whether there is one, and the bytes. -/
@[grind] def RrdClient.copyOut (c : RrdClient) (n : ℕ) : Bool × Text × RrdClient :=
  let p := c.inbuf.getD 0
  let chunk := slice c.mem p (min c.inbufUsed n)
  let taken := if '\n' ∈ chunk then chunk.takeWhile (· ≠ '\n') ++ ['\n'] else chunk
  ('\n' ∈ chunk, taken, { c with inbuf := some (p + taken.length), inbufUsed := c.inbufUsed - taken.length })

/-- The loop of `recvline`, with the number of calls of `recv` and the bytes in front of `s`: the value that is
returned, the bytes in `buf`, the client and the number of calls. -/
@[grind] def recvlineLoop (rs : ℕ → RecvResult) : ℕ → ℕ → RrdClient → Text → ℕ → Option (ℤ × Text × RrdClient × ℕ)
  | 0, _, _, _, _ => none
  | fuel + 1, k, c, out, n =>
    if n = 0 then some (1, out, c, k)
    else
      let refill : Bool := c.inbufUsed = 0 ∨ c.inbuf = none
      let c := if refill then c.receive (rs k) else c
      let k := if refill then k + 1 else k
      if refill ∧ c.inbufUsed = 0 ∧ out = [] then some (-1, out, c, k)
      else
        let (found, taken, c) := c.copyOut n
        if found then some (1, out ++ taken, c, k)
        else recvlineLoop rs fuel k c (out ++ taken) (n - taken.length)

/-- `recvline` into a buffer of `n` bytes, one of them for the NUL. -/
@[grind] def RrdClient.recvline (c : RrdClient) (rs : ℕ → RecvResult) (n fuel : ℕ) : Option (ℤ × Text × RrdClient × ℕ) :=
  if n = 0 then some (-1, [], c, 0) else recvlineLoop rs fuel 0 c [] (n - 1)

/-- The bytes that are left in the buffer. -/
@[grind] def RrdClient.unread (c : RrdClient) : Text :=
  match c.inbuf with
  | none => []
  | some p => slice c.mem p c.inbufUsed

/-! ### One round -/

section Round

variable {rs : ℕ → RecvResult} {c c' : RrdClient} {fuel k n : ℕ} {out p : Text}

/-- After a chunk has been received, it is what the buffer holds. -/
lemma unread_receive (chunk : { chunk : Text // chunk ≠ [] }) (h : chunk.1.length ≤ rrdCmdMax) :
    (c.receive (.data chunk h)).unread = chunk := by
  refine slice_eq fun i hi => ?_
  rw [Nat.zero_add]
  show chunk.1.getD i (c.mem i) = chunk.1.get ⟨i, hi⟩
  rw [List.getD_eq_getElem?_getD, List.getElem?_eq_getElem hi, Option.getD_some, List.get_eq_getElem]

/-- The bytes of `p` up to a newline, at most `n`. -/
@[grind] def takenOf (n : ℕ) (p : Text) : Text :=
  if '\n' ∈ p.take n then (p.take n).takeWhile (· ≠ '\n') ++ ['\n'] else p.take n

/-- What is taken out of the buffer, and what stays there. -/
lemma copyOut_spec (hp : c.unread = p) (hne : p ≠ []) (n : ℕ) :
    ∃ c' : RrdClient, c.copyOut n = (decide ('\n' ∈ p.take n), takenOf n p, c') ∧
      c'.unread = p.drop (takenOf n p).length := by
  obtain ⟨mem, _ | q, used⟩ := c
  · exact absurd hp.symm hne
  · obtain rfl : slice mem q used = p := hp
    refine ⟨(RrdClient.copyOut ⟨mem, some q, used⟩ n).2.2, ?_, ?_⟩
    · simp only [RrdClient.copyOut, Option.getD_some, slice_take]
      rfl
    · simp only [RrdClient.copyOut, Option.getD_some, slice_take]
      exact slice_drop mem q used _

/-- A round with bytes in the buffer. -/
lemma loop_copy (hp : c.unread = p) (hne : p ≠ []) (hn : n ≠ 0) :
    ∃ c' : RrdClient, c'.unread = p.drop (takenOf n p).length ∧ ∀ fuel,
      recvlineLoop rs (fuel + 1) k c out n =
        if '\n' ∈ p.take n then some (1, out ++ takenOf n p, c', k)
        else recvlineLoop rs fuel k c' (out ++ takenOf n p) (n - (takenOf n p).length) := by
  obtain ⟨c', hcopy, hunread⟩ := copyOut_spec hp hne n
  have hrefill : (c.inbufUsed = 0 ∨ c.inbuf = none) ↔ False := by
    refine iff_false_intro ?_
    obtain ⟨mem, _ | q, used⟩ := c
    · exact absurd hp.symm hne
    · rintro (hzero | hnone)
      · obtain rfl : used = 0 := hzero
        exact hne hp.symm
      · cases hnone
  refine ⟨c', hunread, fun fuel => ?_⟩
  simp only [recvlineLoop, if_neg hn, hrefill, decide_false, Bool.false_eq_true, if_false, false_and, hcopy]
  simp only [decide_eq_true_eq]

/-- A round that receives a chunk goes on as one with this chunk in the buffer. -/
lemma loop_refill (hp : c.unread = []) {chunk : { chunk : Text // chunk ≠ [] }} {h : chunk.1.length ≤ rrdCmdMax}
    (hr : rs k = .data chunk h) (hn : n ≠ 0) :
    recvlineLoop rs (fuel + 1) k c out n = recvlineLoop rs (fuel + 1) (k + 1) (c.receive (rs k)) out n := by
  have hrefill : (c.inbufUsed = 0 ∨ c.inbuf = none) ↔ True := by
    refine iff_true_intro ?_
    obtain ⟨mem, _ | q, used⟩ := c
    · exact .inr rfl
    · refine .inl ?_
      have hlen := congrArg List.length hp
      rwa [RrdClient.unread, length_slice] at hlen
  have hused : (c.receive (rs k)).inbufUsed ≠ 0 := by
    rw [hr]
    exact fun hzero => chunk.2 (List.eq_nil_of_length_eq_zero hzero)
  have hinbuf : (c.receive (rs k)).inbuf ≠ none := Option.some_ne_none 0
  simp only [recvlineLoop, if_neg hn, hrefill, decide_true, if_true, hused, hinbuf, or_self, decide_false,
    Bool.false_eq_true, if_false, false_and, and_false]

end Round

/-! ### The stream -/

/-- A line, or as much as there is room for, is at the front. -/
def LineReady (n : ℕ) (s : Text) : Prop := '\n' ∈ s.take n ∨ n ≤ s.length

/-- The bytes of `j` results of `recv`. -/
def received (rs : ℕ → RecvResult) (k j : ℕ) : Text := (List.range j).flatMap fun i => (rs (k + i)).bytes

section Stream

variable {rs : ℕ → RecvResult} {c c' : RrdClient} {fuel d k k' n : ℕ} {out out' p s : Text} {ret : ℤ}

lemma received_succ (rs : ℕ → RecvResult) (k j : ℕ) : received rs k (j + 1) = (rs k).bytes ++ received rs (k + 1) j := by
  rw [received, List.range_succ_eq_map, List.flatMap_cons, List.flatMap_map, Nat.add_zero, received]
  congr 2
  funext i
  rw [Nat.add_right_comm, Nat.add_assoc]

/-- A front without a newline is taken as it is. -/
lemma takenOf_append (hp : '\n' ∉ p) (hn : p.length ≤ n) (s : Text) : takenOf n (p ++ s) = p ++ takenOf (n - p.length) s := by
  have htake : (p ++ s).take n = p ++ s.take (n - p.length) := by rw [List.take_append, List.take_of_length_le hn]
  have hmem : '\n' ∈ p ++ s.take (n - p.length) ↔ '\n' ∈ s.take (n - p.length) := by
    rw [List.mem_append, or_iff_right hp]
  have hother : ∀ c ∈ p, (decide (c ≠ '\n')) = true := fun c hc => decide_eq_true fun h => hp (h ▸ hc)
  rw [takenOf, takenOf, htake]
  simp only [hmem, List.takeWhile_append_of_pos hother]
  split
  · rw [List.append_assoc]
  · rfl

lemma lineReady_append (hp : '\n' ∉ p) (hn : p.length ≤ n) : LineReady n (p ++ s) ↔ LineReady (n - p.length) s := by
  rw [LineReady, LineReady, List.take_append, List.take_of_length_le hn, List.mem_append, or_iff_right hp, List.length_append]
  exact or_congr_right ⟨fun h => by omega, fun h => by omega⟩

lemma takenOf_of_not_ready (h : ¬ LineReady n p) : '\n' ∉ p ∧ p.length < n ∧ takenOf n p = p := by
  obtain ⟨hmem, hlen⟩ := not_or.1 h
  have hlt := not_le.1 hlen
  rw [List.take_of_length_le hlt.le] at hmem
  refine ⟨hmem, hlt, ?_⟩
  rw [takenOf, List.take_of_length_le hlt.le, if_neg hmem]

/-- A line that is ready is returned without another call of `recv`. -/
lemma loop_ready (hp : c.unread = p) (h : LineReady n p) (out : Text) :
    ∃ fuel, ∃ c' : RrdClient, recvlineLoop rs fuel k c out n = some (1, out ++ takenOf n p, c', k) ∧
      c'.unread = p.drop (takenOf n p).length := by
  by_cases hn : n = 0
  · refine ⟨1, c, ?_, ?_⟩
    · subst hn
      simp [recvlineLoop, takenOf]
    · subst hn
      simpa [takenOf] using hp
  · have hne : p ≠ [] := by
      rintro rfl
      obtain h | h := h
      · simp at h
      · exact hn (Nat.le_zero.1 h)
    by_cases hmem : '\n' ∈ p.take n
    · obtain ⟨c', hunread, hloop⟩ := @loop_copy rs c k n out p hp hne hn
      exact ⟨1, c', by rw [hloop, if_pos hmem], hunread⟩
    · obtain ⟨c', hunread, hloop⟩ := @loop_copy rs c k n out p hp hne hn
      have htaken : takenOf n p = p.take n := if_neg hmem
      have hlen : (p.take n).length = n := List.length_take_of_le (h.resolve_left hmem)
      refine ⟨2, c', ?_, hunread⟩
      rw [hloop, if_neg hmem, htaken, hlen, Nat.sub_self, recvlineLoop, if_pos rfl]

/-- A line that is complete before the stream ends is returned, and nothing else is taken out of the stream. -/
lemma loop_complete (hp : c.unread = p) (hdata : ∀ i < d, (rs (k + i)).isData) (h : LineReady n (p ++ received rs k d))
    (out : Text) :
    ∃ j ≤ d, LineReady n (p ++ received rs k j) ∧ ∃ fuel, ∃ c' : RrdClient,
      recvlineLoop rs fuel k c out n = some (1, out ++ takenOf n (p ++ received rs k j), c', k + j) ∧
        c'.unread = (p ++ received rs k j).drop (takenOf n (p ++ received rs k j)).length := by
  induction d generalizing k p c out n with
  | zero =>
    obtain ⟨fuel, c', hloop, hunread⟩ := @loop_ready rs c k n _ (hp.trans (List.append_nil p).symm) h out
    exact ⟨0, le_rfl, h, fuel, c', hloop, hunread⟩
  | succ d ih =>
    by_cases hready : LineReady n p
    · have hnil : p ++ received rs k 0 = p := List.append_nil p
      rw [← hnil] at hready hp
      obtain ⟨fuel, c', hloop, hunread⟩ := @loop_ready rs c k n _ hp hready out
      exact ⟨0, Nat.zero_le _, hready, fuel, c', hloop, hunread⟩
    · obtain ⟨hnone, hlt, htaken⟩ := takenOf_of_not_ready hready
      obtain ⟨chunk, hfits, hr⟩ : ∃ chunk hfits, rs k = .data chunk hfits := by
        have hk := hdata 0 (Nat.succ_pos d)
        rw [Nat.add_zero] at hk
        cases hrk : rs k with
        | data chunk hfits => exact ⟨chunk, hfits, rfl⟩
        | eof => rw [hrk] at hk; cases hk
        | error => rw [hrk] at hk; cases hk
      have hbytes : (rs k).bytes = chunk := by rw [hr]; rfl
      rw [received_succ, hbytes, lineReady_append hnone hlt.le] at h
      -- The client that has used up its buffer and received the next chunk.
      have hlater : ∀ c₁ : RrdClient, c₁.unread = [] → ∃ j ≤ d,
          LineReady (n - p.length) (chunk ++ received rs (k + 1) j) ∧ ∃ fuel, ∃ c' : RrdClient,
            recvlineLoop rs (fuel + 1) k c₁ (out ++ p) (n - p.length) =
              some (1, out ++ p ++ takenOf (n - p.length) (chunk ++ received rs (k + 1) j), c', k + 1 + j) ∧
            c'.unread = (chunk ++ received rs (k + 1) j).drop
              (takenOf (n - p.length) (chunk ++ received rs (k + 1) j)).length := by
        intro c₁ hc₁
        have hunread : (c₁.receive (rs k)).unread = chunk := by rw [hr, unread_receive]
        obtain ⟨j, hj, hreadyj, fuel, c', hloop, hrest⟩ := @ih (c₁.receive (rs k)) (k + 1) (n - p.length) chunk hunread
          (fun i hi => by rw [Nat.add_assoc, Nat.add_comm 1]; exact hdata (i + 1) (by omega)) h (out ++ p)
        obtain ⟨fuel, rfl⟩ : ∃ f, fuel = f + 1 := by
          cases fuel with
          | zero => cases hloop
          | succ fuel => exact ⟨fuel, rfl⟩
        exact ⟨j, hj, hreadyj, fuel, c', by rw [loop_refill hc₁ hr (by omega), hloop], hrest⟩
      -- What the result for the rest means for the whole.
      have hwhole : ∀ j, p ++ received rs k (j + 1) = p ++ (chunk ++ received rs (k + 1) j) := fun j => by
        rw [received_succ, hbytes]
      have hdrop : ∀ t : Text, (p ++ t).drop (takenOf n (p ++ t)).length = t.drop (takenOf (n - p.length) t).length := by
        intro t
        rw [takenOf_append hnone hlt.le, List.length_append, List.drop_append, List.drop_of_length_le (by omega),
          List.nil_append, Nat.add_sub_cancel_left]
      by_cases hempty : p = []
      · obtain ⟨j, hj, hreadyj, fuel, c', hloop, hrest⟩ := hlater c (hp.trans hempty)
        refine ⟨j + 1, by omega, ?_, fuel + 1, c', ?_, ?_⟩
        · rw [hwhole, lineReady_append hnone hlt.le]
          exact hreadyj
        · rw [hwhole, takenOf_append hnone hlt.le, ← List.append_assoc, Nat.add_comm j, ← Nat.add_assoc]
          subst hempty
          simpa using hloop
        · rw [hwhole, hdrop, hrest]
      · obtain ⟨c₁, hunread, hstep⟩ := @loop_copy rs c k n out p hp hempty (by omega)
        rw [htaken, List.drop_length] at hunread
        obtain ⟨j, hj, hreadyj, fuel, c', hloop, hrest⟩ := hlater c₁ hunread
        refine ⟨j + 1, by omega, ?_, fuel + 2, c', ?_, ?_⟩
        · rw [hwhole, lineReady_append hnone hlt.le]
          exact hreadyj
        · have hmem : '\n' ∉ p.take n := fun hmem => hnone (List.mem_of_mem_take hmem)
          rw [hwhole, takenOf_append hnone hlt.le, ← List.append_assoc, Nat.add_comm j, ← Nat.add_assoc, hstep, if_neg hmem,
            htaken, hloop]
        · rw [hwhole, hdrop, hrest]

/-- The end of a round, behind the refill. -/
@[grind] def copyRound (rs : ℕ → RecvResult) (fuel k : ℕ) (c : RrdClient) (out : Text) (n : ℕ) : Option (ℤ × Text × RrdClient × ℕ) :=
  if (c.copyOut n).1 then some (1, out ++ (c.copyOut n).2.1, (c.copyOut n).2.2, k)
  else recvlineLoop rs fuel k (c.copyOut n).2.2 (out ++ (c.copyOut n).2.1) (n - (c.copyOut n).2.1.length)

/-- A round. -/
lemma loop_cases (h : recvlineLoop rs (fuel + 1) k c out n = some (ret, out', c', k')) :
    ret = 1 ∨ n ≠ 0 ∧ c.inbufUsed ≠ 0 ∧ copyRound rs fuel k c out n = some (ret, out', c', k') ∨
      (c.inbufUsed = 0 ∨ c.inbuf = none) ∧ n ≠ 0 ∧
        ((c.receive (rs k)).inbufUsed = 0 ∧ out = [] ∧ out' = [] ∧ k' = k + 1 ∨
          ((c.receive (rs k)).inbufUsed ≠ 0 ∨ out ≠ []) ∧
            copyRound rs fuel (k + 1) (c.receive (rs k)) out n = some (ret, out', c', k')) := by
  by_cases hn : n = 0
  · rw [recvlineLoop, if_pos hn] at h
    exact .inl (Prod.mk.inj (Option.some.inj h)).1.symm
  · by_cases hrefill : c.inbufUsed = 0 ∨ c.inbuf = none
    · refine .inr (.inr ⟨hrefill, hn, ?_⟩)
      simp only [recvlineLoop, if_neg hn, hrefill, decide_true, if_true, true_and] at h
      split at h
      · rename_i hend
        obtain ⟨-, hout, -, hk⟩ := by simpa only [Option.some.injEq, Prod.mk.injEq] using h
        exact .inl ⟨hend.1, hend.2, hout.symm.trans hend.2, hk.symm⟩
      · rename_i hmore
        exact .inr ⟨not_and_or.1 hmore, h⟩
    · refine .inr (.inl ⟨hn, (not_or.1 hrefill).1, ?_⟩)
      simp only [recvlineLoop, if_neg hn, hrefill, decide_false, Bool.false_eq_true, if_false, false_and] at h
      exact h

/-- With something in `buf` the loop never returns -1. -/
lemma loop_ne_minus_one (hout : out ≠ []) (h : recvlineLoop rs fuel k c out n = some (ret, out', c', k')) : ret = 1 := by
  induction fuel generalizing k c out n with
  | zero => cases h
  | succ fuel ih =>
    have hround : ∀ k₁ c₁, copyRound rs fuel k₁ c₁ out n = some (ret, out', c', k') → ret = 1 := by
      intro k₁ c₁ hcopy
      unfold copyRound at hcopy
      split at hcopy
      · exact (Prod.mk.inj (Option.some.inj hcopy)).1.symm
      · exact ih (List.append_ne_nil_of_left_ne_nil hout _) hcopy
    obtain hret | ⟨-, -, hcopy⟩ | ⟨-, -, ⟨-, hnil, -⟩ | ⟨-, hcopy⟩⟩ := loop_cases h
    · exact hret
    · exact hround k c hcopy
    · exact absurd hnil hout
    · exact hround _ _ hcopy

/-- A round with bytes in the buffer takes some of them. -/
lemma copyRound_ne_minus_one (hn : n ≠ 0) (hused : c.inbufUsed ≠ 0)
    (h : copyRound rs fuel k c out n = some (ret, out', c', k')) : ret = 1 := by
  unfold copyRound at h
  split at h
  · exact (Prod.mk.inj (Option.some.inj h)).1.symm
  · rename_i hfound
    refine loop_ne_minus_one (List.append_ne_nil_of_right_ne_nil out ?_) h
    simp only [RrdClient.copyOut, decide_eq_true_eq] at hfound ⊢
    rw [if_neg hfound]
    refine List.ne_nil_of_length_pos ?_
    rw [length_slice]
    omega

/-- The loop returns -1 only when the buffer is empty and the first call of `recv` says that the stream has ended. -/
lemma loop_minus_one (h : recvlineLoop rs fuel k c [] n = some (-1, out', c', k')) :
    c.unread = [] ∧ rs k = .eof ∧ k' = k + 1 := by
  cases fuel with
  | zero => cases h
  | succ fuel =>
    obtain hret | ⟨hn, hused, hcopy⟩ | ⟨hrefill, hn, ⟨hzero, -, -, hk⟩ | ⟨hmore, hcopy⟩⟩ := loop_cases h
    · cases hret
    · cases copyRound_ne_minus_one hn hused hcopy
    · refine ⟨?_, ?_, hk⟩
      · obtain ⟨mem, _ | q, used⟩ := c
        · rfl
        · obtain hused | hnone := hrefill
          · obtain rfl : used = 0 := hused
            rfl
          · cases hnone
      · cases hr : rs k with
        | eof => rfl
        | data chunk hfits =>
          rw [hr] at hzero
          exact absurd (List.eq_nil_of_length_eq_zero hzero) chunk.2
        | error =>
          rw [hr] at hzero
          cases hzero
    · cases copyRound_ne_minus_one hn (hmore.resolve_right fun hne => hne rfl) hcopy

end Stream

/-! ### The caller's view -/

/-- What a caller relies on: there is a result; for 1 the bytes are the next line of the stream, or as much of it as
there is room for, with only data received on the way and the rest of them kept; -1 means that the stream ended before
the line was complete. -/
def RecvFaithful (c : RrdClient) (rs : ℕ → RecvResult) (n : ℕ) : Prop :=
  ∃ fuel ret out, ∃ c' : RrdClient, ∃ k, c.recvline rs n fuel = some (ret, out, c', k) ∧
    (ret = 1 ∧ (∀ i < k, (rs i).isData) ∧ LineReady (n - 1) (c.unread ++ received rs 0 k) ∧
        out = takenOf (n - 1) (c.unread ++ received rs 0 k) ∧
        c'.unread = (c.unread ++ received rs 0 k).drop out.length ∨
      ret = -1 ∧ ∃ j, (∀ i < j, (rs i).isData) ∧ ¬ (rs j).isData ∧ ¬ LineReady (n - 1) (c.unread ++ received rs 0 j))

lemma ready_or_eof_of_faithful {c : RrdClient} {rs : ℕ → RecvResult} {n : ℕ} (hn : n ≠ 0) (h : RecvFaithful c rs n) :
    (∃ d, (∀ i < d, (rs i).isData) ∧ LineReady (n - 1) (c.unread ++ received rs 0 d)) ∨ c.unread = [] ∧ rs 0 = .eof := by
  obtain ⟨fuel, ret, out, c', k, hrun, ⟨-, hdata, hready, -⟩ | ⟨rfl, -⟩⟩ := h
  · exact .inl ⟨k, hdata, hready⟩
  · rw [RrdClient.recvline, if_neg hn] at hrun
    obtain ⟨hempty, heof, -⟩ := loop_minus_one hrun
    exact .inr ⟨hempty, heof⟩

/-- A caller can rely on `recvline` exactly if the line is complete before the stream ends, or if the stream has ended
with nothing of a line in the buffer. In every other case the loop does not end, or it returns bytes of an earlier
chunk. -/
theorem recvline_faithful_iff (c : RrdClient) (rs : ℕ → RecvResult) (n : ℕ) (hn : 2 ≤ n) :
    RecvFaithful c rs n ↔
      (∃ d, (∀ i < d, (rs i).isData) ∧ LineReady (n - 1) (c.unread ++ received rs 0 d)) ∨ c.unread = [] ∧ rs 0 = .eof := by
  have hn0 : n ≠ 0 := by omega
  refine ⟨ready_or_eof_of_faithful hn0, ?_⟩
  · rintro (⟨d, hdata, hready⟩ | ⟨hempty, heof⟩)
    · obtain ⟨j, hj, hreadyj, fuel, c', hloop, hrest⟩ := @loop_complete rs c d 0 (n - 1) _ rfl
        (fun i hi => by rw [Nat.zero_add]; exact hdata i hi) hready []
      refine ⟨fuel, 1, _, c', 0 + j, by rw [RrdClient.recvline, if_neg hn0, hloop], .inl ⟨rfl, fun i hi => ?_, ?_⟩⟩
      · exact hdata i (by omega)
      · rw [Nat.zero_add, List.nil_append]
        exact ⟨hreadyj, rfl, hrest⟩
    · have hrefill : c.inbufUsed = 0 ∨ c.inbuf = none := by
        obtain ⟨mem, _ | q, used⟩ := c
        · exact .inr rfl
        · have hlen := congrArg List.length hempty
          rw [RrdClient.unread, length_slice] at hlen
          exact .inl hlen
      have hzero : (c.receive (rs 0)).inbufUsed = 0 := by rw [heof]; rfl
      refine ⟨1, -1, [], c.receive (rs 0), 1, ?_, .inr ⟨rfl, 0, fun i hi => absurd hi (Nat.not_lt_zero i), ?_, ?_⟩⟩
      · rw [RrdClient.recvline, if_neg hn0]
        simp only [recvlineLoop, if_neg (show n - 1 ≠ 0 by omega), hrefill, decide_true, if_true, hzero, and_self]
      · rw [heof]
        exact Bool.false_ne_true
      · rw [hempty]
        rintro (hmem | hle)
        · exact List.not_mem_nil (List.mem_of_mem_take hmem)
        · have : n - 1 ≤ 0 := hle
          omega

/-- A client that has read the answer "0 ok" to the end. -/
def answered : RrdClient := ⟨fun i => "0 ok\n".toList.getD i '\x00', some 5, 0⟩

/-- When `recv` fails, the answer is returned once more. -/
theorem recvline_stale :
    ((answered.recvline (fun _ => .error) 16 1).map fun r => (r.1, r.2.1)) = some (1, "0 ok\n".toList) ∧
      ¬ RecvFaithful answered (fun _ => .error) 16 := by
  refine ⟨rfl, fun h => ?_⟩
  obtain ⟨d, hdata, hready⟩ | ⟨-, heof⟩ := ready_or_eof_of_faithful (by decide) h
  · cases d with
    | zero =>
      obtain hmem | hle := hready
      · exact absurd hmem (by decide)
      · exact absurd hle (by decide)
    | succ d => cases hdata 0 (Nat.succ_pos d)
  · cases heof

/-- An answer in two pieces is read whole. -/
theorem recvline_twoPieces :
    RecvFaithful answered
      (fun i => if i = 0 then .data ⟨"1 o".toList, by decide⟩ (by decide) else .data ⟨"k\nmore".toList, by decide⟩ (by decide))
      16 :=
  (recvline_faithful_iff answered _ 16 (by decide)).2 (.inl ⟨2, by decide, .inl (by decide)⟩)

end Rrdtool
