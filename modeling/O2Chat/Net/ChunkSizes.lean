import O2Chat.Net.Exchange

/-!
# The size of a chunk in `size_t`

`chunk_size + 2` is computed in the condition of the read, in the iterator that the
condition returns and in `processChunk`. The size is any number of 64 bits, the first
and the last sum are modulo `2^64`, and an iterator is moved by a `ptrdiff_t`.
-/
namespace O2Chat.Net

open O2Chat.Common O2Chat.Lib.Search O2Chat.Lib.Stream

/-- A `size_t` as a `ptrdiff_t`. -/
def ptrdiff (n : Nat) : Int := if n < 2 ^ 63 then n else n - 2 ^ 64

/-- The condition of the read for a chunk: the iterator, as an offset from `begin`, and
whether it matches. -/
def chunkCondition (size : Nat) (buffered : Bytes) : Int × Bool :=
  if chunkBytes size ≤ buffered.length then (ptrdiff size + 2, true) else (0, false)

/-- The asynchronous read tests the same. -/
theorem chunkCondition_snd (size : Nat) (buffered : Bytes) :
    (chunkCondition size buffered).2 = (atLeast (chunkBytes size) buffered).2 := by
  unfold chunkCondition atLeast
  split <;> rfl

theorem chunkCondition_snd_iff (size : Nat) (buffered : Bytes) :
    (chunkCondition size buffered).2 = true ↔ chunkBytes size ≤ buffered.length := by
  rw [chunkCondition_snd, atLeast_snd, decide_eq_true_iff]

theorem chunkCondition_fst {size : Nat} {buffered : Bytes}
    (h : chunkBytes size ≤ buffered.length) : (chunkCondition size buffered).1 = ptrdiff size + 2 := by
  unfold chunkCondition
  rw [if_pos h]

/-- `processChunk` goes on with these data at the end of the body. -/
def Appends (z : Zlib) (size : Nat) (reply : HttpReply) (x : Exchange) (data : Bytes) : Prop :=
  let reply' := { reply with body := reply.body ++ data }
  let x' := Exchange.processChunk z none size reply x
  if size = 0 then x'.calls = x.calls ++ [processReply z reply'] else x'.pending = some (.chunkLine reply')

/-- When the condition matches, all of the chunk is in the buffer, the iterator is within
it, and the body grows by the chunk. -/
def ChunkExact (z : Zlib) (size : Nat) (reply : HttpReply) (x : Exchange) : Prop :=
  (chunkCondition size x.client.buffered).2 = true →
    size + 2 ≤ x.client.buffered.length ∧
    0 ≤ (chunkCondition size x.client.buffered).1 ∧
    (chunkCondition size x.client.buffered).1 ≤ x.client.buffered.length ∧
    ∃ data, data.length = size ∧ Appends z size reply x data

/-- What is read is appended up to the size. -/
theorem appends_read (z : Zlib) {size : Nat} (reply : HttpReply) {x : Exchange}
    (h : chunkBytes size ≤ x.client.buffered.length) :
    Appends z size reply x ((x.client.unread.take (chunkBytes size)).take size) := by
  obtain ⟨client, hread, -⟩ := Exchange.read_eq (x := x) rfl h
    fun response x =>
      let reply := { reply with body := reply.body ++ response.take size }
      if size = 0 then x.call (processReply z reply) else x.await (.chunkLine reply)
  unfold Appends Exchange.processChunk
  dsimp only at hread ⊢
  rw [hread]
  by_cases hzero : size = 0
  · rw [if_pos hzero, if_pos hzero]
    rfl
  · rw [if_neg hzero, if_neg hzero]
    rfl

theorem appends_unique {z : Zlib} {size : Nat} {reply : HttpReply} {x : Exchange} {data data' : Bytes}
    (hsize : size ≠ 0) (h : Appends z size reply x data) (h' : Appends z size reply x data') :
    data = data' := by
  unfold Appends at h h'
  dsimp only at h h'
  rw [if_neg hsize] at h h'
  have hreply := Pending.chunkLine.inj (Option.some.inj (h.symm.trans h'))
  exact List.append_cancel_left (congrArg HttpReply.body hreply)

/-- Below `2^63` nothing wraps. -/
theorem chunkExact_of_lt (z : Zlib) {size : Nat} (hsize : size < 2 ^ 63) (reply : HttpReply)
    (x : Exchange) : ChunkExact z size reply x := by
  intro hmatch
  rw [chunkCondition_snd_iff] at hmatch
  have hbytes : chunkBytes size = size + 2 := Nat.mod_eq_of_lt (by omega)
  have hiterator : ptrdiff size = size := if_pos hsize
  rw [chunkCondition_fst hmatch, hiterator]
  rw [hbytes] at hmatch
  refine ⟨hmatch, by omega, by omega, _, ?_, appends_read z reply (by rwa [hbytes])⟩
  have hunread : x.client.buffered.length ≤ x.client.unread.length := by
    unfold Source.unread
    rw [List.length_append]
    exact Nat.le_add_right _ _
  rw [List.length_take, List.length_take, hbytes]
  omega

/-- From `2^63` on, a match moves the iterator back, or takes less than the chunk. -/
theorem not_chunkExact_of_le (z : Zlib) {size : Nat} (hlt : size < 2 ^ 64) (hsize : 2 ^ 63 ≤ size)
    (reply : HttpReply) {x : Exchange} (h : chunkBytes size ≤ x.client.buffered.length) :
    ¬ ChunkExact z size reply x := by
  intro hexact
  obtain ⟨-, hbegin, -, data, hdata, happends⟩ :=
    hexact ((chunkCondition_snd_iff size x.client.buffered).mpr h)
  have hiterator : ptrdiff size = size - 2 ^ 64 := if_neg (Nat.not_lt.mpr hsize)
  rw [chunkCondition_fst h, hiterator] at hbegin
  have hwrapped : chunkBytes size < 2 := by
    unfold chunkBytes
    omega
  have hsame := appends_unique (by omega) happends (appends_read z reply h)
  have hlen := congrArg List.length hsame
  rw [hdata, List.length_take, List.length_take] at hlen
  omega

theorem chunkSize_lt {line : Bytes} {size : Nat} (h : chunkSize line = some size) : size < 2 ^ 64 := by
  unfold chunkSize at h
  split at h
  · rename_i n parsed hstoul
    split at h
    · obtain rfl := Option.some.inj h
      exact stoul_lt hstoul
    · cases h
  · cases h

/-- For every size that a line can give, the arithmetic is exact unless the size is from
`2^63` on and as many bytes are there as the sum that has wrapped. -/
theorem chunk_arithmetic_iff (z : Zlib) (line : Bytes) (size : Nat) (hline : chunkSize line = some size)
    (reply : HttpReply) (x : Exchange) : ChunkExact z size reply x ↔
      size < 2 ^ 63 ∨ x.client.buffered.length < (size + 2) % 2 ^ 64 := by
  constructor
  · intro hexact
    by_contra hnot
    obtain ⟨hsize, hbuf⟩ := not_or.mp hnot
    exact not_chunkExact_of_le z (chunkSize_lt hline) (Nat.not_lt.mp hsize) reply
      (Nat.not_lt.mp hbuf) hexact
  · rintro (hsize | hbuf)
    · exact chunkExact_of_lt z hsize reply x
    · intro hmatch
      exact absurd ((chunkCondition_snd_iff size x.client.buffered).mp hmatch) (Nat.not_le.mpr hbuf)

theorem chunk_arithmetic_iff_five : ChunkExact Sample.outOfMemory 5 {}
    { client := ⟨bytes "hello\r\n0", []⟩ } :=
  (chunk_arithmetic_iff Sample.outOfMemory (bytes "5") 5 (by decide) {}
    { client := ⟨bytes "hello\r\n0", []⟩ }).mpr (Or.inl (by decide))

/-- A line with a minus sign, and nothing in the buffer: the condition matches. -/
theorem negative_size_matches : chunkSize (bytes "-2") = some (2 ^ 64 - 2) ∧
    ¬ ChunkExact Sample.outOfMemory (2 ^ 64 - 2) {} { client := ⟨[], []⟩ } := by
  refine ⟨by decide +kernel, fun hexact => ?_⟩
  obtain ⟨hall, -⟩ := hexact (by decide +kernel)
  exact absurd hall (by decide)

end O2Chat.Net
